import PennCloud.Kv.Proof.Filled
import PennCloud.Kv.Proof.Ordered

/-!
# Sound states

The invariant under which contents survive eviction. No pointer a command follows is null, whether or
not the list is in order; the files of residents and of evicted users hold no comma; the row of every
evicted user stands where its record says. The byte counter of a state is exact when it is the total
of the resident values, as an `int`. What each small step does to the contents is said here once.
-/

namespace PennCloud.LRUCache

open DList Std

/-! ### Files without commas -/

structure Plain (files : Map Str) : Prop where
  names : CommaFreeNames files
  values : CommaFreeValues files

variable {s s' t : LRUCache} {user filename value u : Str} {r p x n : Ref} {files : Map Str}

theorem plain_empty : Plain ∅ :=
  ⟨fun f v hget => by simp at hget, fun f v hget => by simp at hget⟩

theorem Plain.insert (h : Plain files) (hname : ',' ∉ filename) (hvalue : ',' ∉ value) :
    Plain (files.insert filename value) := by
  constructor
  all_goals
    intro f v hget
    rw [SortedMap.getElem?_insert_eq] at hget
    split at hget
  · next heq => exact heq ▸ hname
  · exact h.names f v hget
  · exact Option.some.inj hget ▸ hvalue
  · exact h.values f v hget

theorem Plain.erase (h : Plain files) : Plain (files.erase filename) := by
  constructor
  all_goals
    intro f v hget
    rw [SortedMap.getElem?_erase_eq] at hget
    split at hget
  · exact absurd hget.symm (Option.some_ne_none v)
  · exact h.names f v hget
  · exact absurd hget.symm (Option.some_ne_none v)
  · exact h.values f v hget

theorem Plain.addFile (h : Plain files) (hname : ',' ∉ filename) (hvalue : ',' ∉ value) :
    Plain (addFile files (filename, value)) := by
  refine ⟨?_, h.values.addFile hvalue⟩
  intro f v hget
  rw [getElem?_addFile] at hget
  split at hget
  · next heq => exact heq ▸ hname
  · exact h.names f v hget

theorem Plain.filesOfRow (h : Plain files) : LRUCache.filesOfRow (rowOf files) = files :=
  filesOfRow_rowOf h.names h.values

theorem total_insert (files : Map Str) (filename value : Str) :
    total (files.insert filename value) = value.length + total (files.erase filename) :=
  SortedMap.sum_insert files filename value

theorem total_of_getElem? (hget : files[filename]? = some value) :
    total files = value.length + total (files.erase filename) :=
  SortedMap.sum_of_getElem? hget

theorem total_addFile (files : Map Str) (file : Str × Str) :
    total (addFile files file) = total files + file.2.length := by
  rw [addFile, total_insert, List.length_append, ExtTreeMap.getD_eq_getD_getElem?]
  cases hget : files[file.1]? with
  | none =>
      rw [SortedMap.erase_eq_self hget]
      simp only [Option.getD_none, List.length_nil]
      omega
  | some old =>
      rw [total_of_getElem? hget]
      simp only [Option.getD_some]
      omega

/-! ### Sums over the residents -/

/-- The weights of the residents' files, summed over some of the tablets. -/
def weigh (w : Map Str → Nat) (s : LRUCache) (tablets : Map Ref) : Nat :=
  SortedMap.sum (fun _ r => w (s.heap r).value) tablets

/-- The bytes of the values in memory. -/
def residentTotal (s : LRUCache) : Nat := s.weigh total s.tablets

/-- The counter is the total of the resident values, converted to an `int`. -/
def Exact (s : LRUCache) : Prop := s.memoryUsed = toInt32 s.residentTotal

section Weigh

variable {w : Map Str → Nat}

theorem weigh_congr (hvalues : ∀ (u : Str) r, s.tablets[u]? = some r → (s'.heap r).value = (s.heap r).value) :
    s'.weigh w s.tablets = s.weigh w s.tablets :=
  SortedMap.sum_congr fun u r hr => by rw [hvalues u r hr]

theorem weigh_of_resident (hresident : s.tablets[user]? = some r) :
    s.weigh w s.tablets = w (s.heap r).value + s.weigh w (s.tablets.erase user) :=
  SortedMap.sum_of_getElem? hresident

theorem weigh_addNode (htidy : s.Tidy) (habsent : s.tablets[user]? = none) :
    (s.addNode user filename value).weigh w (s.addNode user filename value).tablets =
      w ((∅ : Map Str).insert filename value) + s.weigh w s.tablets := by
  have hothers : (s.addNode user filename value).weigh w s.tablets = s.weigh w s.tablets :=
    weigh_congr fun u r hr => by rw [addNode_heap (htidy.ne_fresh hr)]
  rw [← hothers]
  refine (SortedMap.sum_insert_of_none habsent).trans ?_
  rw [addNode_heap_self]
  rfl

theorem erase_getElem? {m : Map Ref} (hu : (m.erase user)[u]? = some r) : u ≠ user ∧ m[u]? = some r := by
  rw [SortedMap.getElem?_erase_eq] at hu
  split at hu
  · exact absurd hu.symm (Option.some_ne_none r)
  · next hne => exact ⟨Ne.symm hne, hu⟩

theorem setValue_value_other (htidy : s.Tidy) (hresident : s.tablets[user]? = some r)
    (hu : s.tablets[u]? = some x) (hne : u ≠ user) :
    ((s.setValue r files).heap x).value = (s.heap x).value := by
  refine setValue_value_of_ne ?_
  rintro rfl
  exact hne (htidy.user_eq hu hresident)

theorem weigh_setValue (htidy : s.Tidy) (hresident : s.tablets[user]? = some r) :
    (s.setValue r files).weigh w (s.tablets.erase user) = s.weigh w (s.tablets.erase user) := by
  refine SortedMap.sum_congr fun u x hx => ?_
  obtain ⟨hne, hu⟩ := erase_getElem? hx
  rw [setValue_value_other htidy hresident hu hne]

end Weigh

theorem residentTotal_of_resident (hresident : s.tablets[user]? = some r) :
    s.residentTotal = total (s.heap r).value + s.weigh total (s.tablets.erase user) :=
  weigh_of_resident hresident

theorem residentTotal_setValue (htidy : s.Tidy) (hresident : s.tablets[user]? = some r) :
    (s.setValue r files).residentTotal = total files + s.weigh total (s.tablets.erase user) := by
  have hresident' : (s.setValue r files).tablets[user]? = some r := hresident
  rw [residentTotal_of_resident hresident', setValue_value_self]
  exact congrArg (total files + ·) (weigh_setValue htidy hresident)

/-! ### Contents -/

theorem rowOnDisk_congr (hvirmem : s'.virmemMeta = s.virmemMeta) (hdisk : s'.disk.files = s.disk.files) :
    s'.rowOnDisk u = s.rowOnDisk u := by
  rw [rowOnDisk, rowOnDisk, readRow, readRow, hvirmem, hdisk]

theorem filesOf_congr (htablets : s'.tablets = s.tablets) (hvalues : ∀ r, (s'.heap r).value = (s.heap r).value)
    (hvirmem : s'.virmemMeta = s.virmemMeta) (hdisk : s'.disk.files = s.disk.files) :
    s'.filesOf u = s.filesOf u := by
  rw [filesOf, filesOf, htablets, rowOnDisk_congr hvirmem hdisk]
  cases s.tablets[u]? with
  | none => rfl
  | some r => exact hvalues r

theorem filesOf_unknown (h : s.Unknown user) : s.filesOf user = ∅ := by
  rw [filesOf_of_absent h.1, rowOnDisk_of_none h.2, filesOfRow_nil]

theorem filesOf_addNode (htidy : s.Tidy) :
    (s.addNode user filename value).filesOf u =
      if user = u then (∅ : Map Str).insert filename value else s.filesOf u := by
  by_cases hu : user = u
  · rw [if_pos hu, filesOf_of_resident (r := .node s.nodes), addNode_heap_self]
    rw [addNode_tablets, if_pos hu]
  · rw [if_neg hu, filesOf, filesOf, addNode_tablets, if_neg hu]
    cases hresident : s.tablets[u]? with
    | none => rfl
    | some r => exact congrArg Node.value (addNode_heap (htidy.ne_fresh hresident))

theorem filesOf_setValue (htidy : s.Tidy) (hresident : s.tablets[user]? = some r) :
    (s.setValue r files).filesOf u = if user = u then files else s.filesOf u := by
  by_cases hu : user = u
  · subst hu
    rw [if_pos rfl, filesOf_of_resident (s := s.setValue r files) hresident, setValue_value_self]
  · have htablets : (s.setValue r files).tablets[u]? = s.tablets[u]? := rfl
    rw [if_neg hu, filesOf, filesOf, htablets]
    cases hother : s.tablets[u]? with
    | none => rfl
    | some x => exact setValue_value_other htidy hresident hother (Ne.symm hu)

theorem total_empty : total ∅ = 0 := by simp [total]

/-- A user whose node is given up has nothing any more. -/
theorem filesOf_emptied (htidy : s.Tidy) (hresident : s.tablets[user]? = some r) (files : Map Str) :
    ({ s.setValue r files with tablets := s.tablets.erase user } : LRUCache).filesOf u =
      if user = u then ∅ else s.filesOf u := by
  split
  · next heq =>
      subst heq
      exact filesOf_unknown ⟨ExtTreeMap.getElem?_erase_self, htidy.disjoint user r hresident⟩
  · next hne =>
      have htablets : (s.tablets.erase user)[u]? = s.tablets[u]? := by
        rw [SortedMap.getElem?_erase_eq, if_neg hne]
      rw [filesOf, filesOf]
      dsimp only
      rw [htablets]
      cases hu : s.tablets[u]? with
      | none => rfl
      | some x => exact setValue_value_other htidy hresident hu (Ne.symm hne)

section FileErased

variable (htidy : s.Tidy) (hresident : s.tablets[user]? = some r)

include htidy hresident

theorem filesOf_fileErased : (s.fileErased user filename r).filesOf u =
    if user = u then (s.filesOf user).erase filename else s.filesOf u := by
  rw [filesOf_of_resident hresident]
  by_cases hempty : ((s.heap r).value.erase filename).isEmpty = true
  · have htablets : (s.fileErased user filename r).tablets = s.tablets.erase user := by
      rw [fileErased, if_pos hempty]
    rw [ExtTreeMap.isEmpty_iff.mp hempty, ← filesOf_emptied htidy hresident ((s.heap r).value.erase filename)]
    exact filesOf_congr htablets (fun _ => rfl) rfl rfl
  · have htablets : (s.fileErased user filename r).tablets = s.tablets := by
      rw [fileErased, if_neg hempty]
    rw [← filesOf_setValue htidy hresident]
    exact filesOf_congr htablets (fun _ => rfl) rfl rfl

theorem residentTotal_fileErased (hget : (s.filesOf user)[filename]? = some value) :
    (s.fileErased user filename r).residentTotal + value.length = s.residentTotal := by
  have hsplit := total_of_getElem? hget
  have htotal := residentTotal_of_resident hresident
  rw [filesOf_of_resident hresident] at hsplit
  by_cases hempty : ((s.heap r).value.erase filename).isEmpty = true
  · have htablets : (s.fileErased user filename r).tablets = s.tablets.erase user := by
      rw [fileErased, if_pos hempty]
    have hkept : (s.setValue r ((s.heap r).value.erase filename)).weigh total (s.tablets.erase user) =
        s.weigh total (s.tablets.erase user) := weigh_setValue htidy hresident
    have hweigh : (s.fileErased user filename r).residentTotal = s.weigh total (s.tablets.erase user) := by
      rw [residentTotal, htablets, ← hkept]
      rfl
    rw [ExtTreeMap.isEmpty_iff.mp hempty, total_empty] at hsplit
    omega
  · have htablets : (s.fileErased user filename r).tablets = s.tablets := by
      rw [fileErased, if_neg hempty]
    have hweigh : (s.fileErased user filename r).residentTotal =
        (s.setValue r ((s.heap r).value.erase filename)).residentTotal := by
      rw [residentTotal, htablets]
      rfl
    rw [hweigh, residentTotal_setValue htidy hresident]
    omega

end FileErased

theorem Recorded.rowOnDisk {row : Str} (h : s.Recorded .virtualMemory user row) :
    s.rowOnDisk user = row :=
  rowOnDisk_of_readRow h.readRow

theorem Recorded.congr {type : ChunkType} {row : Str} (h : s.Recorded type user row)
    (hmeta : s'.metaOf type = s.metaOf type) (hdisk : s'.disk.files = s.disk.files) :
    s'.Recorded type user row := by
  rw [Recorded, hmeta, hdisk]
  exact h

/-! ### The invariant -/

structure Sound (s : LRUCache) : Prop where
  tidy : s.Tidy
  pointed : Pointed s.links .head .tail s.Allocated
  nonneg : 0 ≤ s.capacity
  small : s.capacity ≤ intMax
  resident : ∀ (u : Str) r, s.tablets[u]? = some r → Plain (s.heap r).value ∧ (s.heap r).value ≠ ∅
  evicted : ∀ u : Str, s.virmemMeta[u]? ≠ none →
    ∃ files, Plain files ∧ files ≠ ∅ ∧ s.Recorded .virtualMemory u (rowOf files)
  chunk : ∃ fill : Nat, s.ChunkAt .virtualMemory 0 fill ∧ fill ≤ chunkSize

theorem Sound.not_filled (h : s.Sound) : ¬ s.Filled := by
  rintro ⟨chunk, hchunk, hpos⟩
  obtain ⟨fill, hat, _⟩ := h.chunk
  rw [hat.info] at hchunk
  obtain rfl : 0 = chunk := Option.some.inj hchunk
  omega

theorem Sound.filesOf_evicted (h : s.Sound) (hvirmem : s.virmemMeta[user]? ≠ none) :
    Plain (s.filesOf user) ∧ s.filesOf user ≠ ∅ ∧
      s.Recorded .virtualMemory user (rowOf (s.filesOf user)) := by
  obtain ⟨files, hplain, hne, hrecorded⟩ := h.evicted user hvirmem
  have hfiles : s.filesOf user = files := by
    rw [filesOf_of_absent (h.tidy.absent_of_virmem hvirmem), hrecorded.rowOnDisk, hplain.filesOfRow]
  rw [hfiles]
  exact ⟨hplain, hne, hrecorded⟩

theorem Sound.plain (h : s.Sound) (user : Str) : Plain (s.filesOf user) := by
  cases hresident : s.tablets[user]? with
  | some r =>
      rw [filesOf_of_resident hresident]
      exact (h.resident user r hresident).1
  | none =>
      by_cases hvirmem : s.virmemMeta[user]? = none
      · rw [filesOf_unknown ⟨hresident, hvirmem⟩]
        exact plain_empty
      · exact (h.filesOf_evicted hvirmem).1

theorem Sound.congr (h : s.Sound) (hheap : s'.heap = s.heap) (hnodes : s'.nodes = s.nodes)
    (htablets : s'.tablets = s.tablets) (hvirmem : s'.virmemMeta = s.virmemMeta)
    (hdisk : s'.disk.files = s.disk.files) (hinfo : s'.chunkInfo = s.chunkInfo) (hcapacity : s'.capacity = s.capacity) :
    s'.Sound := by
  have hlinks : s'.links = s.links := by rw [links, hheap, links]
  have hallocated : s'.Allocated = s.Allocated := by
    funext r
    rw [Allocated, hnodes, Allocated]
  refine ⟨h.tidy.congr hnodes htablets (fun r => by rw [hheap]) hvirmem, ?_, ?_, ?_, ?_, ?_, ?_⟩
  · rw [hlinks, hallocated]
    exact h.pointed
  · rw [hcapacity]
    exact h.nonneg
  · rw [hcapacity]
    exact h.small
  · rw [htablets, hheap]
    exact h.resident
  · rw [hvirmem]
    intro u hu
    obtain ⟨files, hplain, hne, hrecorded⟩ := h.evicted u hu
    exact ⟨files, hplain, hne, hrecorded.congr hvirmem hdisk⟩
  · obtain ⟨fill, hat, hfill⟩ := h.chunk
    exact ⟨fill, ⟨by rw [hinfo, hat.info], by rw [Disk.content, hdisk]; exact hat.length⟩, hfill⟩

/-- The pointers may change, as long as none of them becomes null. -/
theorem Sound.relink {L : Links Ref} (h : s.Sound) (hpointed : Pointed L .head .tail s.Allocated) :
    (s.relink L).Sound :=
  ⟨h.tidy.congr rfl rfl (fun _ => rfl) rfl, hpointed, h.nonneg, h.small, h.resident, h.evicted,
    ⟨h.chunk.choose, ⟨h.chunk.choose_spec.1.info, h.chunk.choose_spec.1.length⟩, h.chunk.choose_spec.2⟩⟩

theorem Sound.setValue (h : s.Sound) (hresident : s.tablets[user]? = some r) (hplain : Plain files)
    (hne : files ≠ ∅) : (s.setValue r files).Sound := by
  refine ⟨h.tidy.setValue, ?_, h.nonneg, h.small, fun u x hu => ?_, h.evicted, ?_⟩
  · rw [links_setValue]
    exact h.pointed
  · by_cases hx : x = r
    · subst hx
      rw [setValue_value_self]
      exact ⟨hplain, hne⟩
    · rw [setValue_value_of_ne hx]
      exact h.resident u x hu
  · obtain ⟨fill, hat, hfill⟩ := h.chunk
    exact ⟨fill, ⟨hat.info, hat.length⟩, hfill⟩

end PennCloud.LRUCache
