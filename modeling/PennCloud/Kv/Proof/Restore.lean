import PennCloud.Kv.Proof.Steps

/-!
# Restoring a row

`restore_user` puts the pairs of a row one by one. With room for all of them nothing is evicted, and
the user ends with the files that the row lists. A row lists the files it was made from exactly when
no value holds a comma: the separator is not escaped, and what is restored never holds one.
-/

namespace PennCloud.LRUCache

open DList Std

variable {s s' : LRUCache} {user filename value : Str} {files : Map Str} {fuel : Nat}
  {commFd seqNum : Int}

/-! ### With room -/

/-- A user that is not in virtual memory has these files: those of its node, or none. -/
structure Building (s : LRUCache) (user : Str) (files : Map Str) : Prop where
  held : (s.tablets[user]? = none ∧ files = ∅) ∨
    ∃ i, s.tablets[user]? = some (.node i) ∧ (s.heap (.node i)).value = files
  virmem : s.virmemMeta[user]? = none
  tail : ∃ p, s.links.prev .tail = some p

theorem rowOnDisk_of_readRow {row : Str}
    (hread : readRow s.disk .virtualMemory ((s.metaOf .virtualMemory).getD user []) = .ok row) :
    s.rowOnDisk user = row := by
  have hrecords : s.virmemMeta = s.metaOf .virtualMemory := rfl
  rw [rowOnDisk, hrecords, hread]

theorem rowOnDisk_of_none (hvirmem : s.virmemMeta[user]? = none) : s.rowOnDisk user = [] := by
  have hrecords : s.virmemMeta.getD user [] = [] := by
    rw [ExtTreeMap.getD_eq_getD_getElem?, hvirmem]
    rfl
  rw [rowOnDisk, hrecords]
  rfl

theorem filesOf_of_resident {r : Ref} (hresident : s.tablets[user]? = some r) :
    s.filesOf user = (s.heap r).value := by
  rw [filesOf, hresident]

theorem filesOf_of_absent (habsent : s.tablets[user]? = none) :
    s.filesOf user = filesOfRow (s.rowOnDisk user) := by
  rw [filesOf, habsent]

@[simp]
theorem filesOfRow_nil : filesOfRow [] = ∅ := rfl

theorem Building.filesOf (h : s.Building user files) : s.filesOf user = files := by
  rcases h.held with ⟨habsent, rfl⟩ | ⟨i, hresident, hvalue⟩
  · rw [filesOf_of_absent habsent, rowOnDisk_of_none h.virmem, filesOfRow_nil]
  · rw [filesOf_of_resident hresident, hvalue]

theorem Building.put (h : s.Building user files) (fuel : Nat) (filename : Str) (commFd seqNum : Int) (hvalue : value.length ≤ toSize s.capacity)
    (hfits : s.fits value = true) :
    ∃ s', LRUCache.put (fuel + 1) s user filename value commFd false seqNum = .ok s' ∧
      s'.Building user (addFile files (filename, value)) ∧
      s'.memoryUsed = toInt32 (s.memoryUsed + value.length) ∧ s'.capacity = s.capacity ∧ s'.sent = s.sent := by
  rw [put_internal_fits hvalue hfits]
  obtain ⟨p, hp⟩ := h.tail
  rcases h.held with ⟨habsent, rfl⟩ | ⟨i, hresident, rfl⟩
  · rw [placeValue_absent habsent h.virmem hp, Run.ok_bind]
    refine ⟨_, rfl, ⟨Or.inr ⟨s.nodes, ?_, ?_⟩, h.virmem, ?_⟩, rfl, rfl, rfl⟩
    · exact ExtTreeMap.getElem?_insert_self
    · rw [addFile_of_none ExtTreeMap.getElem?_empty]
      simp [addNode]
    · exact ⟨_, toTail_prev_tail ..⟩
  · rw [placeValue_resident hresident h.virmem hp (by simp), Run.ok_bind]
    refine ⟨_, rfl, ⟨Or.inr ⟨i, hresident, ?_⟩, h.virmem, ?_⟩, rfl, rfl, rfl⟩
    · simp [setValue, addFile]
    · exact ⟨_, toTail_prev_tail ..⟩

/-- The bytes that a list of files holds. -/
def bytesOf (pairs : List (Str × Str)) : Nat := (pairs.map fun file => file.2.length).sum

@[simp]
theorem bytesOf_nil : bytesOf [] = 0 := rfl

@[simp]
theorem bytesOf_cons (file : Str × Str) (pairs : List (Str × Str)) :
    bytesOf (file :: pairs) = file.2.length + bytesOf pairs := rfl

theorem total_eq_bytesOf (files : Map Str) : total files = bytesOf files.toList := rfl

theorem Building.restore (h : s.Building user files) (fuel : Nat) (commFd : Int)
    (pairs : List (Str × Str)) (hmem : 0 ≤ s.memoryUsed) (hroom : s.memoryUsed + bytesOf pairs ≤ s.capacity)
    (hcap : s.capacity ≤ intMax) :
    ∃ s', pairs.foldlM (fun s file =>
        LRUCache.put (fuel + 1) s user file.1 file.2 commFd false 0) s = .ok s' ∧
      s'.Building user (pairs.foldl addFile files) ∧
      s'.memoryUsed = s.memoryUsed + bytesOf pairs ∧ s'.capacity = s.capacity ∧ s'.sent = s.sent := by
  induction pairs generalizing s files with
  | nil => exact ⟨s, rfl, h, by simp, rfl, rfl⟩
  | cons file pairs ih =>
      rw [bytesOf_cons] at hroom ⊢
      have hlength : file.2.length ≤ toSize s.capacity := by
        rw [toSize_of_nonneg (by omega) hcap]
        omega
      have hfits : s.fits file.2 = true :=
        (fits_iff hmem (by omega) (by omega) hcap hlength).mpr (by omega)
      obtain ⟨t, hput, hbuilding, hmemory, hcapacity, hsent⟩ :=
        h.put fuel file.1 commFd 0 hlength hfits
      have hmemory' : t.memoryUsed = s.memoryUsed + file.2.length := by
        rw [hmemory, toInt32_of_range (by simp only [intMax]; omega) (by omega)]
      obtain ⟨t', hrest, hbuilding', hmemory'', hcapacity', hsent'⟩ :=
        ih hbuilding (by omega) (by omega) (by omega)
      refine ⟨t', ?_, hbuilding', by omega, hcapacity'.trans hcapacity, hsent'.trans hsent⟩
      rw [List.foldlM_cons, hput, Run.ok_bind, hrest]

/-! ### What is restored holds no comma -/

/-- A user's node, if there is one, is not a sentinel, and its values hold no comma. -/
def CommaFreeNode (s : LRUCache) (user : Str) : Prop :=
  ∀ r, s.tablets[user]? = some r → r ≠ .tail ∧ CommaFreeValues (s.heap r).value

theorem CommaFreeNode.filesOf (h : s.CommaFreeNode user) : CommaFreeValues (s.filesOf user) := by
  cases hresident : s.tablets[user]? with
  | none =>
      rw [filesOf_of_absent hresident]
      exact commaFreeValues_filesOfRow _
  | some r =>
      rw [filesOf_of_resident hresident]
      exact (h r hresident).2

theorem CommaFreeNode.congr (h : s.CommaFreeNode user) (htablets : s'.tablets = s.tablets)
    (hheap : s'.heap = s.heap) : s'.CommaFreeNode user := by
  intro r hresident
  rw [htablets] at hresident
  rw [hheap]
  exact h r hresident

theorem commaFreeNode_insertUser (hvalue : ',' ∉ value)
    (hrun : s.insertUser user filename value = .ok s') : s'.CommaFreeNode user := by
  obtain ⟨p, _, rfl⟩ := insertUser_ok hrun
  intro r hresident
  obtain rfl : .node s.nodes = r := by simpa [addNode] using hresident
  refine ⟨by simp, fun f v hget => ?_⟩
  simp only [toTail_value, addNode, Function.update_self, SortedMap.getElem?_insert_eq] at hget
  split at hget
  · exact Option.some.inj hget ▸ hvalue
  · simp at hget

theorem CommaFreeNode.storeResident {new : Str → Str} (h : s.CommaFreeNode user) (hvalue : ',' ∉ value)
    (hnew : ∀ old, new old = old ++ value ∨ new old = value)
    (hrun : s.storeResident user filename new = .ok s') : s'.CommaFreeNode user := by
  obtain ⟨r, hresident, hstored⟩ := storeResident_ok hrun
  obtain ⟨hr, hvalues⟩ := h r hresident
  obtain ⟨p, _, rfl⟩ := hstored hr
  intro r' hresident'
  obtain rfl : r = r' := Option.some.inj (hresident.symm.trans hresident')
  refine ⟨hr, ?_⟩
  have hold : ',' ∉ (s.heap r).value.getD filename [] := by
    rw [ExtTreeMap.getD_eq_getD_getElem?]
    cases hget : (s.heap r).value[filename]? with
    | none => exact List.not_mem_nil
    | some old => exact hvalues _ _ hget
  intro f v hget
  simp only [toTail_value, setValue, Function.update_self, SortedMap.getElem?_insert_eq] at hget
  split at hget
  · obtain rfl := Option.some.inj hget
    rcases hnew ((s.heap r).value.getD filename []) with heq | heq
    · rw [heq, List.mem_append]
      exact fun hmem => hmem.elim hold hvalue
    · rwa [heq]
  · exact hvalues f v hget

theorem CommaFreeNode.useVirtualMemory (h : s.CommaFreeNode user)
    (hrun : s.useVirtualMemory = .ok s') : s'.CommaFreeNode user := by
  obtain ⟨x, n, t, _, _, hwrite, rfl⟩ := useVirtualMemory_ok hrun
  have hstep := chunkStep_writeToChunkWith hwrite
  intro r hresident
  rw [dropped_tablets, SortedMap.getElem?_erase_eq] at hresident
  split at hresident
  · exact absurd hresident.symm (Option.some_ne_none r)
  · rw [hstep.tablets] at hresident
    rw [dropped_value, hstep.heap]
    exact h r hresident

theorem kept_commaFreeNode (user : Str) : Kept (fun s => s.CommaFreeNode user) (',' ∉ ·) user commFd where
  frame _ _ hs hquiet := hs.congr hquiet.still.tablets hquiet.still.heap
  insert _ _ _ _ hvalue _ _ _ hrun := commaFreeNode_insertUser hvalue hrun
  store _ _ _ _ _ hvalue hnew hs hrun := hs.storeResident hvalue hnew hrun
  evict _ _ hs hrun := hs.useVirtualMemory hrun
  pairs _ _ hfile := (comma_notMem_of_mem_pairs hfile).2

/-- Whatever row is restored for a user without a node, and whatever is evicted on the way. -/
theorem commaFreeValues_of_restoreUser {row : Str} (habsent : s.tablets[user]? = none)
    (hrun : s.restoreUser fuel user row commFd = .ok s') : CommaFreeValues (s'.filesOf user) := by
  have hs : s.CommaFreeNode user := by
    intro r hresident
    rw [habsent] at hresident
    exact absurd hresident.symm (Option.some_ne_none r)
  exact CommaFreeNode.filesOf ((kept_commaFreeNode user).restoreUser hs hrun)

/-! ### The row format -/

/-- Formatting a node and restoring the row gives the files back exactly when no value holds a comma. -/
theorem restoreUser_formatNode_iff (hnames : CommaFreeNames files) (habsent : s.tablets[user]? = none)
    (hvirmem : s.virmemMeta[user]? = none) (htail : s.links.prev .tail ≠ none) (hmem : 0 ≤ s.memoryUsed)
    (hroom : s.memoryUsed + total files ≤ s.capacity) (hcap : s.capacity ≤ intMax) :
    (∃ s', s.restoreUser (fuel + 1) user (formatNode files).1 commFd = .ok s' ∧
      s'.filesOf user = files) ↔ CommaFreeValues files := by
  constructor
  · rintro ⟨s', hrun, rfl⟩
    exact commaFreeValues_of_restoreUser habsent hrun
  · intro hvalues
    have hbuilding : s.Building user ∅ :=
      ⟨Or.inl ⟨habsent, rfl⟩, hvirmem, Option.ne_none_iff_exists'.mp htail⟩
    obtain ⟨s', hrun, hrestored, _⟩ :=
      hbuilding.restore fuel commFd files.toList hmem hroom hcap
    refine ⟨s', ?_, ?_⟩
    · rw [restoreUser, restoreUserWith, formatNode, pairs_rowOf hnames hvalues, hrun]
    · rw [hrestored.filesOf, foldl_addFile_toList]

theorem restoreUser_formatNode_two_files :
    (∃ s', (fresh 20 true).restoreUser 1 "u".toList
        (formatNode (((∅ : Map Str).insert "a".toList "1;2".toList).insert "b".toList "3".toList)).1 3 = .ok s' ∧
      s'.filesOf "u".toList = ((∅ : Map Str).insert "a".toList "1;2".toList).insert "b".toList "3".toList) ↔
    CommaFreeValues (((∅ : Map Str).insert "a".toList "1;2".toList).insert "b".toList "3".toList) :=
  restoreUser_formatNode_iff (by
      intro f v hget
      simp only [SortedMap.getElem?_insert_eq] at hget
      split at hget
      · next heq => exact heq ▸ by decide
      · split at hget
        · next heq => exact heq ▸ by decide
        · simp at hget)
    rfl rfl (by decide) (by decide) (by decide) (by decide)

/-- The value `a,b` does not come back, however deep the recursion may go. -/
theorem restoreUser_formatNode_comma :
    ¬ ∃ fuel s', (fresh 20 true).restoreUser fuel "u".toList
        (formatNode ((∅ : Map Str).insert "f".toList "a,b".toList)).1 3 = .ok s' ∧
      s'.filesOf "u".toList = (∅ : Map Str).insert "f".toList "a,b".toList := by
  rintro ⟨fuel, s', hrun, hfiles⟩
  have hvalues := commaFreeValues_of_restoreUser rfl hrun
  rw [hfiles] at hvalues
  exact hvalues "f".toList "a,b".toList ExtTreeMap.getElem?_insert_self (by decide)

end PennCloud.LRUCache
