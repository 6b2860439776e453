import PennCloud.Kv.Proof.Restart
import PennCloud.Kv.Proof.Sound

/-!
# A checkpoint read back

A checkpoint writes the rows of all users in memory into one chunk, and a new process puts the files of each row back. With the
bytes of all users within the capacity no put is refused and none evicts anybody. The users in memory, the records of the others,
the sizes and the counters are then those of the state that was checkpointed.
-/

namespace PennCloud.LRUCache

open DList Std

variable {s s' t : LRUCache} {user filename value : Str} {files : Map Str} {r : Ref} {commFd : Int}

/-! ### The files of users in memory -/

/-- The files of a user in memory. -/
def residentFiles (s : LRUCache) (user : Str) : Option (Map Str) := s.tablets[user]?.map fun r => (s.heap r).value

theorem residentFiles_of_resident (hresident : s.tablets[user]? = some r) : s.residentFiles user = some (s.heap r).value := by
  rw [residentFiles, hresident, Option.map_some]

theorem residentFiles_eq_none : s.residentFiles user = none ↔ s.tablets[user]? = none := Option.map_eq_none_iff

theorem residentFiles_addNode (htidy : s.Tidy) : (s.addNode user filename value).residentFiles =
    Function.update s.residentFiles user (some ((∅ : Map Str).insert filename value)) := by
  funext u
  by_cases hu : u = user
  · subst hu
    rw [Function.update_self, residentFiles, addNode_tablets, if_pos rfl, Option.map_some, addNode_heap_self]
  · rw [Function.update_of_ne hu, residentFiles, addNode_tablets, if_neg (Ne.symm hu), residentFiles]
    cases hresident : s.tablets[u]? with
    | none => rfl
    | some r => rw [Option.map_some, Option.map_some, addNode_heap (htidy.ne_fresh hresident)]

theorem residentFiles_setValue (htidy : s.Tidy) (hresident : s.tablets[user]? = some r) :
    (s.setValue r files).residentFiles = Function.update s.residentFiles user (some files) := by
  have htablets : (s.setValue r files).tablets = s.tablets := rfl
  funext u
  by_cases hu : u = user
  · subst hu
    rw [Function.update_self, residentFiles, htablets, hresident, Option.map_some, setValue_value_self]
  · rw [Function.update_of_ne hu, residentFiles, htablets, residentFiles]
    cases hother : s.tablets[u]? with
    | none => rfl
    | some x => rw [Option.map_some, Option.map_some, setValue_value_other htidy hresident hother hu]

/-! ### Users that come back -/

/-- A state that can take users back. -/
structure Receptive (s : LRUCache) : Prop where
  tidy : s.Tidy
  tail : ∃ p, s.links.prev .tail = some p
  nonneg : 0 ≤ s.memoryUsed
  small : s.capacity ≤ intMax

/-- What comes back to memory is `held` afterwards, and so many bytes; nothing else changes. -/
structure Regains (s s' : LRUCache) (held : Str → Option (Map Str)) (bytes : Nat) : Prop where
  held : s'.residentFiles = held
  memoryUsed : s'.memoryUsed = s.memoryUsed + bytes
  capacity : s'.capacity = s.capacity
  userSize : s'.userSize = s.userSize
  virmemMeta : s'.virmemMeta = s.virmemMeta
  cpMeta : s'.cpMeta = s.cpMeta
  chunkInfo : s'.chunkInfo = s.chunkInfo
  disk : s'.disk = s.disk

theorem Regains.refl (s : LRUCache) : Regains s s s.residentFiles 0 :=
  ⟨rfl, by simp, rfl, rfl, rfl, rfl, rfl, rfl⟩

theorem Regains.trans {held held' : Str → Option (Map Str)} {bytes bytes' : Nat} (h : Regains s t held bytes)
    (h' : Regains t s' held' bytes') : Regains s s' held' (bytes + bytes') where
  held := h'.held
  memoryUsed := by rw [h'.memoryUsed, h.memoryUsed, Int.natCast_add, Int.add_assoc]
  capacity := h'.capacity.trans h.capacity
  userSize := h'.userSize.trans h.userSize
  virmemMeta := h'.virmemMeta.trans h.virmemMeta
  cpMeta := h'.cpMeta.trans h.cpMeta
  chunkInfo := h'.chunkInfo.trans h.chunkInfo
  disk := h'.disk.trans h.disk

theorem Receptive.fits (h : s.Receptive) (hroom : s.memoryUsed + value.length ≤ s.capacity) :
    value.length ≤ toSize s.capacity ∧ s.fits value = true ∧
      toInt32 (s.memoryUsed + value.length) = s.memoryUsed + value.length := by
  have hnonneg := h.nonneg
  have hsmall := h.small
  have hlength : value.length ≤ toSize s.capacity := by
    rw [toSize_of_nonneg (by omega) hsmall]
    omega
  refine ⟨hlength, (fits_iff hnonneg (by omega) (by omega) hsmall hlength).mpr hroom, ?_⟩
  exact toInt32_of_range (by simp only [intMax]; omega) (by omega)

theorem Receptive.put (h : s.Receptive) (fuel : Nat) (filename : Str) (commFd : Int) (hvirmem : s.virmemMeta[user]? = none)
    (hroom : s.memoryUsed + value.length ≤ s.capacity) :
    ∃ s', LRUCache.put (fuel + 1) s user filename value commFd false 0 = .ok s' ∧ s'.Receptive ∧
      Regains s s' (Function.update s.residentFiles user
        (some (addFile ((s.residentFiles user).getD ∅) (filename, value)))) value.length := by
  obtain ⟨hlength, hfits, hmemory⟩ := h.fits hroom
  obtain ⟨p, hp⟩ := h.tail
  have hnonneg : 0 ≤ toInt32 (s.memoryUsed + value.length) := by
    rw [hmemory]
    exact Int.add_nonneg h.nonneg (Int.natCast_nonneg _)
  rw [put_internal_fits hlength hfits]
  cases hresident : s.tablets[user]? with
  | none =>
      rw [placeValue_absent hresident hvirmem hp, Run.ok_bind]
      refine ⟨_, rfl, ⟨((h.tidy.addNode hvirmem).toTail).addMemory _, ⟨_, toTail_prev_tail ..⟩, hnonneg, h.small⟩,
        ⟨?_, hmemory, rfl, rfl, rfl, rfl, rfl, rfl⟩⟩
      rw [residentFiles_eq_none.mpr hresident, Option.getD_none, addFile_of_none ExtTreeMap.getElem?_empty]
      exact residentFiles_addNode h.tidy
  | some r =>
      rw [placeValue_resident hresident hvirmem hp (h.tidy.ne_tail hresident), Run.ok_bind]
      refine ⟨_, rfl, ⟨(h.tidy.setValue.toTail).addMemory _, ⟨_, toTail_prev_tail ..⟩, hnonneg, h.small⟩,
        ⟨?_, hmemory, rfl, rfl, rfl, rfl, rfl, rfl⟩⟩
      rw [residentFiles_of_resident hresident, Option.getD_some]
      exact residentFiles_setValue h.tidy hresident

theorem Receptive.restore (h : s.Receptive) (fuel : Nat) (commFd : Int) {pairs : List (Str × Str)} (hne : pairs ≠ [])
    (hvirmem : s.virmemMeta[user]? = none) (hroom : s.memoryUsed + bytesOf pairs ≤ s.capacity) :
    ∃ s', pairs.foldlM (fun s file => LRUCache.put (fuel + 1) s user file.1 file.2 commFd false 0) s = .ok s' ∧ s'.Receptive ∧
      Regains s s' (Function.update s.residentFiles user
        (some (pairs.foldl addFile ((s.residentFiles user).getD ∅)))) (bytesOf pairs) := by
  induction pairs generalizing s with
  | nil => exact absurd rfl hne
  | cons file pairs ih =>
      rw [bytesOf_cons] at hroom ⊢
      have hfits : s.memoryUsed + file.2.length ≤ s.capacity := by omega
      obtain ⟨t, hput, ht, hfirst⟩ := h.put fuel file.1 commFd hvirmem hfits
      rw [List.foldlM_cons, hput, Run.ok_bind]
      cases pairs with
      | nil => exact ⟨t, rfl, ht, hfirst⟩
      | cons file' pairs =>
          obtain ⟨s', hrest, hs', hothers⟩ := ih ht (List.cons_ne_nil _ _) (hfirst.virmemMeta ▸ hvirmem)
            (by rw [hfirst.memoryUsed, hfirst.capacity]; omega)
          refine ⟨s', hrest, hs', ?_⟩
          rw [hfirst.held, Function.update_idem, Function.update_self, Option.getD_some] at hothers
          exact hfirst.trans hothers

/-- A user whose row the last checkpoint holds. -/
structure Saved (s : LRUCache) (user : Str) (files : Map Str) : Prop where
  absent : s.residentFiles user = none
  virmem : s.virmemMeta[user]? = none
  plain : Plain files
  occupied : files ≠ ∅
  recorded : s.Recorded .checkpointing user (rowOf files)

theorem Receptive.loadUser (h : s.Receptive) (fuel : Nat) (commFd : Int) (hsaved : s.Saved user files)
    (hroom : s.memoryUsed + total files ≤ s.capacity) :
    ∃ s', s.loadUserFromDisk (fuel + 1) .checkpointing user commFd = .ok s' ∧ s'.Receptive ∧
      Regains s s' (Function.update s.residentFiles user (some files)) (total files) := by
  have hne : files.toList ≠ [] := by
    rw [ne_eq, ExtTreeMap.toList_eq_nil_iff]
    exact hsaved.occupied
  obtain ⟨s', hrun, hs', hregains⟩ := h.restore fuel commFd hne hsaved.virmem hroom
  rw [hsaved.absent, Option.getD_none, foldl_addFile_toList] at hregains
  refine ⟨s', ?_, hs', hregains⟩
  rw [loadUserFromDisk, loadUserFromDiskWith, hsaved.recorded.readRow, Run.ok_bind, restoreUserWith, pairs_rowOf hsaved.plain.names hsaved.plain.values, hrun]

theorem Saved.of_regains {held : Str → Option (Map Str)} {bytes : Nat} (h : s.Saved user files) (hregains : Regains s t held bytes)
    (hheld : held user = s.residentFiles user) : t.Saved user files where
  absent := by rw [hregains.held, hheld, h.absent]
  virmem := by rw [hregains.virmemMeta, h.virmem]
  plain := h.plain
  occupied := h.occupied
  recorded := h.recorded.congr hregains.cpMeta (congrArg Disk.files hregains.disk)

/-- Loading the users of a checkpoint one by one brings all of them back. -/
theorem Receptive.loadUsers (h : s.Receptive) (fuel : Nat) (commFd : Int) (files : Str → Map Str)
    {entries : List (Str × Records)} (hnodup : (entries.map Prod.fst).Nodup)
    (hsaved : ∀ entry ∈ entries, s.Saved entry.1 (files entry.1))
    (hroom : s.memoryUsed + (entries.map fun entry => total (files entry.1)).sum ≤ s.capacity) :
    ∃ s', entries.foldlM (fun s entry => s.loadUserFromDisk (fuel + 1) .checkpointing entry.1 commFd) s = .ok s' ∧
      Regains s s' (fun u => if u ∈ entries.map Prod.fst then some (files u) else s.residentFiles u)
        (entries.map fun entry => total (files entry.1)).sum := by
  induction entries generalizing s with
  | nil => exact ⟨s, rfl, by simpa using Regains.refl s⟩
  | cons entry entries ih =>
      rw [List.map_cons, List.nodup_cons] at hnodup
      rw [List.map_cons, List.sum_cons] at hroom
      obtain ⟨t, hload, ht, hfirst⟩ := h.loadUser fuel commFd (hsaved entry List.mem_cons_self) (by omega)
      have hothers : ∀ other ∈ entries, t.Saved other.1 (files other.1) := by
        intro other hother
        have hne : other.1 ≠ entry.1 := fun heq => hnodup.1 (heq ▸ List.mem_map_of_mem (f := Prod.fst) hother)
        exact (hsaved other (List.mem_cons_of_mem _ hother)).of_regains hfirst (Function.update_of_ne hne _ _)
      obtain ⟨s', hrest, hregains⟩ := ih ht hnodup.2 hothers (by rw [hfirst.memoryUsed, hfirst.capacity]; omega)
      refine ⟨s', by rw [List.foldlM_cons, hload, Run.ok_bind, hrest], ?_⟩
      have hheld : (fun u => if u ∈ entries.map Prod.fst then some (files u) else t.residentFiles u) =
          fun u => if u ∈ (entry :: entries).map Prod.fst then some (files u) else s.residentFiles u := by
        funext u
        rw [hfirst.held, List.map_cons]
        by_cases hu : u = entry.1
        · subst hu
          rw [if_neg hnodup.1, Function.update_self, if_pos List.mem_cons_self]
        · rw [Function.update_of_ne hu]
          exact if_congr (by simp [hu]) rfl rfl
      rw [← hheld]
      exact hfirst.trans hregains

/-! ### The rows of a checkpoint -/

/-- The rows of the users in memory, in the order of their names. -/
def residentRows (s : LRUCache) : List (Str × Str) :=
  s.tablets.toList.map fun entry => (entry.1, rowOf (s.heap entry.2).value)

/-- The bytes of these rows. -/
def rowBytes (s : LRUCache) : Nat := s.weigh (fun files => (rowOf files).length) s.tablets

theorem totalLength_residentRows : totalLength s.residentRows = s.rowBytes := by
  rw [totalLength, residentRows, List.map_map, rowBytes, weigh, SortedMap.sum]
  rfl

theorem writeRows_eq (hkeyed : ∀ (u : Str) r, s.tablets[u]? = some r → (s.heap r).key = u) :
    s.writeRows = s.writeAll .checkpointing s.residentRows := by
  have hfold (entries : List (Str × Ref)) (hentries : ∀ entry ∈ entries, (s.heap entry.2).key = entry.1) (t : LRUCache)
      (ht : t.heap = s.heap) : entries.foldlM (fun s entry =>
        s.writeToChunk (s.heap entry.2).key (formatNode (s.heap entry.2).value).1 .checkpointing) t =
          t.writeAll .checkpointing (entries.map fun entry => (entry.1, rowOf (s.heap entry.2).value)) := by
    induction entries generalizing t with
    | nil => rfl
    | cons entry entries ih =>
        rw [List.foldlM_cons, List.map_cons, writeAll, List.foldlM_cons, ht, hentries entry List.mem_cons_self]
        refine Run.bind_congr fun t' hwrite => ?_
        exact ih (fun e he => hentries e (List.mem_cons_of_mem _ he)) t' ((chunkStep_writeToChunkWith hwrite).heap.trans ht)
  exact hfold s.tablets.toList (fun entry hentry =>
    hkeyed _ _ (ExtTreeMap.mem_toList_iff_getElem?_eq_some.mp hentry)) s rfl

theorem lastWritten_of_nodup {writes : List (Str × Str)} {row : Str} (hnodup : (writes.map Prod.fst).Nodup) :
    (lastWritten writes)[user]? = some row ↔ (user, row) ∈ writes := by
  induction writes using List.reverseRecOn with
  | nil => simp [lastWritten]
  | append_singleton writes write ih =>
      rw [List.map_append, List.nodup_append] at hnodup
      rw [lastWritten_concat, SortedMap.getElem?_insert_eq, List.mem_append, List.mem_singleton]
      split
      · next huser =>
          have hnew : (user, row) ∉ writes := fun hmem =>
            hnodup.2.2 user (List.mem_map_of_mem (f := Prod.fst) hmem) write.1 List.mem_cons_self huser.symm
          rw [or_iff_right hnew, Option.some_inj, Prod.ext_iff, and_iff_right huser.symm, eq_comm]
      · next huser =>
          have hother : (user, row) ≠ write := fun heq => huser (congrArg Prod.fst heq).symm
          rw [ih hnodup.1, or_iff_left hother]

theorem lastWritten_residentRows {row : Str} :
    (lastWritten s.residentRows)[user]? = some row ↔ ∃ files, s.residentFiles user = some files ∧ row = rowOf files := by
  have hnodup : (s.residentRows.map Prod.fst).Nodup := by
    have hnames : s.residentRows.map Prod.fst = s.tablets.keys := by
      rw [residentRows, List.map_map, ← ExtTreeMap.map_fst_toList_eq_keys]
      rfl
    rw [hnames]
    exact ExtTreeMap.nodup_keys
  rw [lastWritten_of_nodup hnodup, residentRows, List.mem_map]
  constructor
  · rintro ⟨entry, hentry, heq⟩
    obtain ⟨rfl, rfl⟩ := Prod.mk.inj heq
    exact ⟨_, residentFiles_of_resident (ExtTreeMap.mem_toList_iff_getElem?_eq_some.mp hentry), rfl⟩
  · rintro ⟨files, hfiles, rfl⟩
    obtain ⟨r, hr, rfl⟩ := Option.map_eq_some_iff.mp hfiles
    exact ⟨(user, r), ExtTreeMap.mem_toList_iff_getElem?_eq_some.mpr hr, rfl⟩

/-! ### A state that comes back -/

/-- None of the separators of the metadata. -/
def Unseparated (user : Str) : Prop := '@' ∉ user ∧ ';' ∉ user ∧ ',' ∉ user ∧ '\n' ∉ user

/-- A state that a checkpoint describes in full. Nodes have the names of their users, numbers are `int`s, records have
three of them, and no vector of counters has more than two. -/
structure Restorable (s : LRUCache) : Prop where
  keyed : ∀ (u : Str) r, s.tablets[u]? = some r → (s.heap r).key = u
  disjoint : ∀ (u : Str) r, s.tablets[u]? = some r → s.virmemMeta[u]? = none
  roomy : (s.residentTotal : Int) ≤ s.capacity
  small : s.capacity ≤ intMax
  resident : ∀ (u : Str) r, s.tablets[u]? = some r → Plain (s.heap r).value ∧ (s.heap r).value ≠ ∅
  rows : s.rowBytes ≤ chunkSize
  records : ∀ (u : Str) records, s.virmemMeta[u]? = some records → records ≠ [] ∧ ∀ record ∈ records, IsRecord record
  counters : ∀ type, (s.chunkInfo type).length ≤ 2 ∧ ∀ n ∈ s.chunkInfo type, IsInt n
  sizes : ∀ (u : Str) n, s.userSize[u]? = some n → IsInt n
  names : ∀ u : Str, u ∈ s.tablets ∨ u ∈ s.virmemMeta ∨ u ∈ s.userSize → Unseparated u

theorem mem_tablets_iff : user ∈ s.tablets ↔ ∃ files, s.residentFiles user = some files := by
  rw [ExtTreeMap.mem_iff_isSome_getElem?, Option.isSome_iff_exists]
  constructor
  · rintro ⟨r, hr⟩
    exact ⟨_, residentFiles_of_resident hr⟩
  · rintro ⟨files, hfiles⟩
    obtain ⟨r, hr, _⟩ := Option.map_eq_some_iff.mp hfiles
    exact ⟨r, hr⟩

theorem Restorable.exists_counters (h : s.Restorable) (hindexable : s.Indexable) (type : ChunkType) :
    ∃ chunk fill, s.chunkInfo type = [chunk, fill] ∧ IsInt chunk ∧ IsInt fill := by
  obtain ⟨chunk, fill, hinfo⟩ := List.length_eq_two.mp (hindexable type)
  have hints := (h.counters type).2
  rw [hinfo] at hints
  exact ⟨chunk, fill, hinfo, hints chunk (by simp), hints fill (by simp)⟩

theorem Indexable.emptied (h : s.Indexable) : s.emptied.chunkInfo .checkpointing = [0, 0] := by
  obtain ⟨chunk, fill, hinfo⟩ := List.length_eq_two.mp (h .checkpointing)
  rw [emptied_checkpointing, hinfo]
  rfl

/-- The state `t` in which a checkpoint of `s` has written the rows of all users in memory. -/
structure RowsWritten (s t : LRUCache) : Prop where
  memoryUsed : t.memoryUsed = s.memoryUsed
  userSize : t.userSize = s.userSize
  virmemMeta : t.virmemMeta = s.virmemMeta
  describable : t.Describable
  named : ∀ u : Str, u ∈ t.cpMeta ↔ u ∈ s.tablets
  recorded : ∀ (u : Str) files, s.residentFiles u = some files → t.Recorded .checkpointing u (rowOf files)
  syscalls : t.syscalls = s.syscalls ++ (clearance s.disk ++ rowAppends .checkpointing s.residentRows)
  disk : t.disk = (rowAppends .checkpointing s.residentRows).foldl Disk.apply (bareDisk s.disk)

theorem Restorable.exists_writeRows (h : s.Restorable) (hindexable : s.Indexable) :
    ∃ t, s.emptied.writeRows = .ok t ∧ RowsWritten s t := by
  have hstate := s.emptied_eq
  have hkeyed : ∀ (u : Str) r, s.emptied.tablets[u]? = some r → (s.emptied.heap r).key = u := by
    rw [hstate]
    exact h.keyed
  have hrows : s.emptied.residentRows = s.residentRows := by rw [hstate]; rfl
  have hnone : s.emptied.metaOf .checkpointing = ∅ := by rw [hstate]; rfl
  have hempty : s.emptied.disk.files .checkpointing = ∅ := by rw [emptied_disk]; rfl
  have hmax : (chunkSize : Int) ≤ intMax := by decide
  have hfit := h.rows
  rw [← totalLength_residentRows] at hfit
  obtain ⟨t, hrun, hwritten⟩ := exists_writeAll hindexable.emptied hempty s.residentRows hfit
  rw [← hrows, ← writeRows_eq hkeyed] at hrun
  have hstep := rowsStep_writeRows hrun
  have hrecords {u : Str} {records : Records} (hu : t.cpMeta[u]? = some records) : u ∈ s.tablets ∧
      ∃ start length : Nat, records = [[0, (start : Int), (length : Int)]] ∧ start + length ≤ chunkSize := by
    rcases hwritten.shape u records hu with hbefore | ⟨row, start, hrow, rfl, hend⟩
    · rw [hnone] at hbefore
      exact absurd hbefore (by simp)
    · obtain ⟨files, hfiles, rfl⟩ := lastWritten_residentRows.mp hrow
      exact ⟨mem_tablets_iff.mpr ⟨files, hfiles⟩, start, _, rfl, by omega⟩
  have hrecorded (u : Str) (files : Map Str) (hfiles : s.residentFiles u = some files) :
      t.Recorded .checkpointing u (rowOf files) :=
    hwritten.recorded u _ (lastWritten_residentRows.mpr ⟨files, hfiles, rfl⟩)
  have hnamed (u : Str) : u ∈ t.cpMeta ↔ u ∈ s.tablets := by
    constructor
    · intro hu
      obtain ⟨records, hu⟩ := Option.isSome_iff_exists.mp (ExtTreeMap.mem_iff_isSome_getElem?.mp hu)
      exact (hrecords hu).1
    · intro hu
      obtain ⟨files, hfiles⟩ := mem_tablets_iff.mp hu
      obtain ⟨chunk, front, back, hmeta, _⟩ := hrecorded u files hfiles
      exact ExtTreeMap.mem_iff_isSome_getElem?.mpr (Option.isSome_iff_exists.mpr ⟨_, hmeta⟩)
  have hvirmem : t.virmemMeta = s.virmemMeta := hstep.virmemMeta.trans (by rw [hstate]; rfl)
  have hsizes : t.userSize = s.userSize := hstep.userSize.trans (by rw [hstate]; rfl)
  have hcp : Recordable t.cpMeta := by
    refine ⟨fun u hu => ?_, fun u records hu => ?_, fun u records hu => ?_⟩
    · have hname := h.names u (Or.inl ((hnamed u).mp hu))
      exact ⟨hname.1, hname.2.1, hname.2.2.2⟩
    · obtain ⟨_, start, length, rfl, _⟩ := hrecords hu
      exact List.cons_ne_nil _ _
    · obtain ⟨_, start, length, rfl, hend⟩ := hrecords hu
      intro record hrecord
      obtain rfl := List.mem_singleton.mp hrecord
      refine ⟨rfl, fun n hn => ?_⟩
      simp only [List.mem_cons, List.not_mem_nil, or_false] at hn
      rcases hn with rfl | rfl | rfl
      all_goals exact ⟨by omega, by omega⟩
  have hvm : Recordable t.virmemMeta := by
    rw [hvirmem]
    refine ⟨fun u hu => ?_, fun u records hu => (h.records u records hu).1, fun u records hu => (h.records u records hu).2⟩
    have hname := h.names u (Or.inr (Or.inl hu))
    exact ⟨hname.1, hname.2.1, hname.2.2.2⟩
  refine ⟨t, hrun, hstep.memoryUsed.trans (by rw [hstate]; rfl), hsizes, hvirmem,
    ⟨hcp, hvm, fun type => ?_, fun u hu => ?_, fun u n hu => ?_⟩, hnamed, hrecorded, ?_, ?_⟩
  · cases type with
    | virtualMemory =>
        obtain ⟨chunk, fill, hinfo, hints⟩ := h.exists_counters hindexable .virtualMemory
        exact ⟨chunk, fill, (hstep.info.trans emptied_virtualMemory).trans hinfo, hints⟩
    | checkpointing => exact ⟨0, _, hwritten.chunk.info, by decide, by omega, by omega⟩
  · have hname := h.names u (Or.inr (Or.inr (hsizes ▸ hu)))
    exact ⟨hname.2.2.1, hname.2.2.2⟩
  · exact h.sizes u n (hsizes ▸ hu)
  · rw [hwritten.syscalls, hstate, List.append_assoc]
  · rw [hwritten.disk, emptied_disk]

theorem atIdx_ok {v : List Int} {i : Nat} {n : Int} (hrun : atIdx v i = .ok n) : i < v.length := by
  rw [atIdx] at hrun
  cases hget : v[i]? with
  | none => rw [hget] at hrun; cases hrun
  | some m => exact (List.getElem?_eq_some_iff.mp hget).1

/-- A checkpoint is completed only with two counters for each series. -/
theorem Restorable.indexable (h : s.Restorable) (hrun : s.checkpointing = .ok s') : s.Indexable := by
  obtain ⟨t, cp, vm, info, sizes, actions, hrows, hmetadata, rfl⟩ := checkpointing_ok hrun
  have hstep := rowsStep_writeRows hrows
  obtain ⟨_, _, _, _, _, hcp, _, hvm, _⟩ := hmetadata.info
  have hlength : (s.emptied.chunkInfo .checkpointing).length = (s.chunkInfo .checkpointing).length := by
    rw [emptied_checkpointing, List.length_set, List.length_set]
  intro type
  refine Nat.le_antisymm (h.counters type).1 ?_
  cases type with
  | virtualMemory =>
      rw [← emptied_virtualMemory, ← hstep.info]
      exact atIdx_ok hvm
  | checkpointing =>
      rw [← hlength, ← hstep.infoLength]
      exact atIdx_ok hcp

/-- The text of the counters of a state. -/
def counterText (t : LRUCache) : Str :=
  infoText ((t.chunkInfo .checkpointing).getD 0 0) ((t.chunkInfo .checkpointing).getD 1 0)
    ((t.chunkInfo .virtualMemory).getD 0 0) ((t.chunkInfo .virtualMemory).getD 1 0) t.memoryUsed

/-- The metadata files of a state, in the order in which they are written. -/
def metadataFiles (t : LRUCache) : List (Str × Str) :=
  [("cp_meta".toList, entriesText t.cpMeta), ("virmem_meta".toList, entriesText t.virmemMeta),
    ("chunk_info".toList, t.counterText), ("user_size".toList, userSizeText t.userSize)]

/-- The actions that write them. -/
def metadataActions (t : LRUCache) : List FsAction :=
  t.metadataFiles.map fun file => .append .metadata file.1 file.2

theorem metadataActions_eq : t.metadataActions =
    metadataWrites (entriesText t.cpMeta) (entriesText t.virmemMeta) t.counterText (userSizeText t.userSize) := rfl

theorem counterText_eq {cpChunk cpSize vmChunk vmSize : Int} (hcp : t.chunkInfo .checkpointing = [cpChunk, cpSize])
    (hvm : t.chunkInfo .virtualMemory = [vmChunk, vmSize]) :
    t.counterText = infoText cpChunk cpSize vmChunk vmSize t.memoryUsed := by
  rw [counterText, hcp, hvm]
  rfl

/-- The actions of a checkpoint behind its rows. -/
def closing (s t : LRUCache) : List FsAction :=
  t.metadataActions ++ copies (s.disk.files .virtualMemory) .virtualMemory .cpVirtualMemory

theorem RowsWritten.otherFiles (h : RowsWritten s t) {dir : Dir} (hdir : dir ≠ .checkpointing) :
    t.disk.files dir = (bareDisk s.disk).files dir := by
  have happends (rows : List (Str × Str)) (d : Disk) :
      ((rowAppends .checkpointing rows).foldl Disk.apply d).files dir = d.files dir := by
    induction rows generalizing d with
    | nil => rfl
    | cons row rows ih => exact (ih _).trans (Disk.files_append_of_ne hdir)
  rw [h.disk, happends]

theorem Restorable.checkpointing_eq (h : s.Restorable) (hindexable : s.Indexable) : ∃ t, RowsWritten s t ∧
    s.checkpointing = .ok ((closing s t).foldl act t) := by
  obtain ⟨t, hrows, ht⟩ := h.exists_writeRows hindexable
  obtain ⟨_, _, _, _, hcpInfo, hvmInfo, _, _, hmetadata⟩ := ht.describable.writeMetadata
  have hreset : s.clearCheckpoint.resetCheckpoint = .ok s.emptied := by
    obtain ⟨chunk, fill, hinfo⟩ := List.length_eq_two.mp (hindexable .checkpointing)
    have hinfo' : ((clearance s.disk).foldl act s).chunkInfo .checkpointing = [chunk, fill] := by rw [foldl_act, hinfo]
    rw [clearCheckpoint_eq, resetCheckpoint, hinfo', emptied, restarted, hinfo']
    rfl
  have hvirtual : (t.metadataActions.foldl act t).disk.files .virtualMemory = s.disk.files .virtualMemory := by
    rw [foldl_act, metadataActions_eq]
    refine (metadataWrites_files (by decide)).trans ((ht.otherFiles (by decide)).trans Disk.files_setFiles)
  refine ⟨t, ht, ?_⟩
  rw [← counterText_eq hcpInfo hvmInfo, ← metadataActions_eq] at hmetadata
  rw [checkpointing, hreset, Run.ok_bind, hrows, Run.ok_bind, hmetadata, Run.ok_bind, copyDir_eq_foldl, hvirtual, closing,
    List.foldl_append]

theorem residentTotal_eq_sum {records : Map Records} (hmem : ∀ u : Str, u ∈ records ↔ u ∈ s.tablets) :
    (records.toList.map fun entry => total ((s.residentFiles entry.1).getD ∅)).sum = s.residentTotal := by
  have hfiles : s.residentTotal = SortedMap.sum (fun u _ => total ((s.residentFiles u).getD ∅)) s.tablets := by
    rw [residentTotal, weigh]
    refine SortedMap.sum_congr fun u r hr => ?_
    rw [residentFiles_of_resident hr, Option.getD_some]
  rw [hfiles]
  exact SortedMap.sum_keys_congr (fun u => total ((s.residentFiles u).getD ∅)) hmem

/-! ### A new process -/

section NewProcess

variable {capacity : Int} {isPrimary : Bool} {d : Disk} {cp vm : Map Records} {sizes : Map Int}
  {info : ChunkType → List Int} {m : Nat}

/-- An empty process that has read the metadata. -/
def informed (capacity : Int) (isPrimary : Bool) (d : Disk) (cp vm : Map Records) (sizes : Map Int)
    (info : ChunkType → List Int) : LRUCache :=
  { init capacity isPrimary info d with
    cpMeta := cp
    virmemMeta := vm
    userSize := sizes }

theorem receptive_informed (hsmall : capacity ≤ intMax) : (informed capacity isPrimary d cp vm sizes info).Receptive := by
  have hnobody (u : Str) : (informed capacity isPrimary d cp vm sizes info).tablets[u]? = none := ExtTreeMap.getElem?_empty
  refine ⟨⟨fun u r hu => ?_, fun u r hu => ?_, fun u r hu => ?_⟩, ⟨.head, rfl⟩, Int.le_refl 0, hsmall⟩
  all_goals
    rw [hnobody] at hu
    exact absurd hu.symm (Option.some_ne_none r)

/-- A new process brings back the users that the metadata names, and takes over the copy of the virtual memory. -/
theorem exists_loadCheckpointing (files : Str → Map Str) (hsmall : capacity ≤ intMax)
    (hload : (init capacity isPrimary (fun _ => []) d).loadMetadata = .ok (informed capacity isPrimary d cp vm sizes info))
    (hsaved : ∀ entry ∈ cp.toList, (informed capacity isPrimary d cp vm sizes info).Saved entry.1 (files entry.1))
    (hroom : ((cp.toList.map fun entry => total (files entry.1)).sum : Int) ≤ capacity) (fuel : Nat) :
    ∃ t, (init capacity isPrimary (fun _ => []) d).loadCheckpointing (fuel + 1) = .ok t ∧
      (∀ u, t.residentFiles u = if u ∈ cp then some (files u) else none) ∧ t.userSize = sizes ∧ t.virmemMeta = vm ∧
        t.memoryUsed = (cp.toList.map fun entry => total (files entry.1)).sum ∧ t.chunkInfo = info ∧
          t.disk = d.setFiles .virtualMemory (d.files .cpVirtualMemory) := by
  have hnodup : (cp.toList.map Prod.fst).Nodup := by
    rw [ExtTreeMap.map_fst_toList_eq_keys]
    exact ExtTreeMap.nodup_keys
  obtain ⟨t, husers, hregains⟩ := (receptive_informed hsmall).loadUsers fuel (-1) files hnodup hsaved
    ((Int.zero_add _).trans_le hroom)
  have hdisk : t.disk = d := hregains.disk
  have hcleared : (t.clearDir .virtualMemory).disk = d.setFiles .virtualMemory ∅ := by rw [clearDir_eq, hdisk]
  have hempty : (t.clearDir .virtualMemory).disk.files .virtualMemory = ∅ := by rw [hcleared, Disk.files_setFiles]
  refine ⟨(t.clearDir .virtualMemory).copyDir .cpVirtualMemory .virtualMemory, ?_, ?_⟩
  · rw [loadCheckpointing, hload, Run.ok_bind]
    exact (congrArg (· >>= _) husers).trans rfl
  · rw [copyDir_eq (by decide) hempty, hcleared, clearDir_eq]
    refine ⟨fun u => (congrFun hregains.held u).trans ?_, hregains.userSize, hregains.virmemMeta,
      hregains.memoryUsed.trans (Int.zero_add _), hregains.chunkInfo, ?_⟩
    · refine if_congr ?_ rfl rfl
      rw [ExtTreeMap.map_fst_toList_eq_keys, ExtTreeMap.mem_keys]
    · rw [Disk.setFiles_setFiles, Disk.files_setFiles_of_ne (by decide)]

/-! ### Part of a checkpoint -/

/-- A disk with the first `m` metadata files of a checkpoint, and its rows if there is any. -/
structure Carries (t : LRUCache) (m : Nat) (d : Disk) : Prop where
  metadata : d.files .metadata = (t.metadataFiles.take m).foldl (fun files file => files.insert file.1 file.2) ∅
  rows : 0 < m → d.files .checkpointing = t.disk.files .checkpointing

theorem Carries.content (h : Carries t m d) :
    d.content .metadata "cp_meta".toList = (if 0 < m then entriesText t.cpMeta else []) ∧
      d.content .metadata "virmem_meta".toList = (if 1 < m then entriesText t.virmemMeta else []) ∧
        d.content .metadata "chunk_info".toList = (if 2 < m then t.counterText else []) ∧
          d.content .metadata "user_size".toList = (if 3 < m then userSizeText t.userSize else []) := by
  have hcp : "cp_meta".toList ≠ "virmem_meta".toList ∧ "cp_meta".toList ≠ "chunk_info".toList ∧
      "cp_meta".toList ≠ "user_size".toList := by decide
  have hvm : "virmem_meta".toList ≠ "chunk_info".toList ∧ "virmem_meta".toList ≠ "user_size".toList := by decide
  have hinfo : "chunk_info".toList ≠ "user_size".toList := by decide
  simp only [Disk.content, h.metadata, metadataFiles]
  generalize "cp_meta".toList = nCp at *
  generalize "virmem_meta".toList = nVm at *
  generalize "chunk_info".toList = nInfo at *
  generalize "user_size".toList = nSizes at *
  rcases m with _ | _ | _ | _ | m
  all_goals simp [ExtTreeMap.getD_insert, hcp, hvm, hinfo, Ne.symm]

theorem Carries.loadMetadata (h : Carries t m d) (ht : t.Describable) (capacity : Int) (isPrimary : Bool) :
    (init capacity isPrimary (fun _ => []) d).loadMetadata = .ok (informed capacity isPrimary d
      (if 0 < m then t.cpMeta else ∅) (if 1 < m then t.virmemMeta else ∅) (if 3 < m then t.userSize else ∅)
      (if 2 < m then t.chunkInfo else fun _ => [])) := by
  obtain ⟨hcp, hvm, hinfo, hsizes⟩ := h.content
  obtain ⟨cpChunk, cpSize, hcpInfo, _⟩ := ht.info .checkpointing
  obtain ⟨vmChunk, vmSize, hvmInfo, _⟩ := ht.info .virtualMemory
  rw [counterText_eq hcpInfo hvmInfo] at hinfo
  refine loadMetadata_eq rfl rfl rfl ?_ ?_ ?_ ?_ (hcp.trans ?_) (hvm.trans ?_) (hsizes.trans ?_) fun u hdisk hchunkInfo => ?_
  · split
    · exact ht.cp
    · exact recordable_empty
  · split
    · exact ht.vm
    · exact recordable_empty
  · split
    · exact ht.named
    · exact fun u hu => absurd hu ExtTreeMap.not_mem_empty
  · split
    · exact ht.sized
    · exact fun u n hu => absurd hu (by simp)
  · exact (apply_ite entriesText (0 < m) t.cpMeta ∅).symm
  · exact (apply_ite entriesText (1 < m) t.virmemMeta ∅).symm
  · exact (apply_ite userSizeText (3 < m) t.userSize ∅).symm
  · have hcontent : u.disk.content .metadata "chunk_info".toList = d.content .metadata "chunk_info".toList :=
      congrArg (fun disk : Disk => disk.content .metadata "chunk_info".toList) hdisk
    rw [hinfo] at hcontent
    split at hcontent
    · next hm =>
        rw [if_pos hm]
        exact ht.loadChunkInfo hcpInfo hvmInfo (congrFun hchunkInfo) hcontent
    · next hm =>
        rw [if_neg hm, loadChunkInfo_empty hcontent]
        exact congrArg (fun info => Except.ok { u with chunkInfo := info }) hchunkInfo

theorem Restorable.saved (h : s.Restorable) (ht : RowsWritten s t) (hresident : s.residentFiles user = some files)
    (hvirmem : vm[user]? = s.virmemMeta[user]? ∨ vm[user]? = none)
    (hrows : d.files .checkpointing = t.disk.files .checkpointing) :
    (informed capacity isPrimary d t.cpMeta vm sizes info).Saved user files := by
  obtain ⟨chunk, front, back, hmeta, hfile⟩ := ht.recorded user files hresident
  obtain ⟨r, hr, rfl⟩ := Option.map_eq_some_iff.mp hresident
  obtain ⟨hplain, hoccupied⟩ := h.resident _ _ hr
  refine ⟨residentFiles_eq_none.mpr ExtTreeMap.getElem?_empty, ?_, hplain, hoccupied, chunk, front, back, hmeta, ?_⟩
  · exact hvirmem.elim (fun heq => heq.trans (h.disjoint _ _ hr)) id
  · exact (congrArg (·[chunkName chunk]?) hrows).trans hfile

/-- What a new process has of a state, on a disk with part of its checkpoint. -/
theorem Restorable.exists_recalled (h : s.Restorable) (ht : RowsWritten s t) (hd : Carries t m d) (fuel : Nat)
    (isPrimary : Bool) :
    ∃ u, (init s.capacity isPrimary (fun _ => []) d).loadCheckpointing (fuel + 1) = .ok u ∧
      u.residentFiles = (if 0 < m then s.residentFiles else fun _ => none) ∧
        u.virmemMeta = (if 1 < m then s.virmemMeta else ∅) ∧ u.userSize = (if 3 < m then s.userSize else ∅) ∧
          u.chunkInfo = (if 2 < m then t.chunkInfo else fun _ => []) ∧ (0 < m → u.memoryUsed = s.residentTotal) ∧
            u.disk = d.setFiles .virtualMemory (d.files .cpVirtualMemory) := by
  have hload := hd.loadMetadata ht.describable s.capacity isPrimary
  rw [ht.userSize, ht.virmemMeta] at hload
  have hroom := h.roomy
  by_cases hm : 0 < m
  · rw [if_pos hm] at hload
    have hsaved : ∀ entry ∈ t.cpMeta.toList, (informed s.capacity isPrimary d t.cpMeta
        (if 1 < m then s.virmemMeta else ∅) (if 3 < m then s.userSize else ∅)
        (if 2 < m then t.chunkInfo else fun _ => [])).Saved entry.1 ((s.residentFiles entry.1).getD ∅) := by
      intro entry hentry
      have hget : t.cpMeta[entry.1]? = some entry.2 := ExtTreeMap.mem_toList_iff_getElem?_eq_some.mp hentry
      have hname : entry.1 ∈ t.cpMeta := ExtTreeMap.mem_iff_isSome_getElem?.mpr (by rw [hget, Option.isSome_some])
      obtain ⟨files, hfiles⟩ := mem_tablets_iff.mp ((ht.named _).mp hname)
      rw [hfiles, Option.getD_some]
      refine h.saved ht hfiles ?_ (hd.rows hm)
      split
      · exact Or.inl rfl
      · exact Or.inr ExtTreeMap.getElem?_empty
    rw [← residentTotal_eq_sum ht.named] at hroom
    obtain ⟨u, hrun, hheld, hsizes, hvirmem, hmemory, hinfo, hdisk⟩ :=
      exists_loadCheckpointing (fun user => (s.residentFiles user).getD ∅) h.small hload hsaved hroom fuel
    rw [residentTotal_eq_sum ht.named] at hmemory
    refine ⟨u, hrun, funext fun user => ?_, hvirmem, hsizes, hinfo, fun _ => hmemory, hdisk⟩
    have hiff : user ∈ t.cpMeta ↔ ∃ files, s.residentFiles user = some files := (ht.named user).trans mem_tablets_iff
    rw [hheld, if_pos hm]
    cases hfiles : s.residentFiles user with
    | none => exact if_neg (by rw [hiff, hfiles]; simp)
    | some files => exact if_pos (hiff.mpr ⟨files, hfiles⟩)
  · rw [if_neg hm] at hload
    have hnobody : (∅ : Map Records).toList = [] := by simp
    obtain ⟨u, hrun, hheld, hsizes, hvirmem, _, hinfo, hdisk⟩ :=
      exists_loadCheckpointing (fun _ => ∅) h.small hload (by simp [hnobody]) (by simp [hnobody]; omega) fuel
    refine ⟨u, hrun, funext fun user => ?_, hvirmem, hsizes, hinfo, fun hpos => absurd hpos hm, hdisk⟩
    rw [hheld, if_neg hm]
    exact if_neg ExtTreeMap.not_mem_empty

end NewProcess

/-! ### The disk of a checkpoint -/

/-- The files in a directory of which the first `n` have been copied. -/
def copied (files : Map Str) (n : Nat) : Map Str :=
  (files.toList.take n).foldl (fun copy file => copy.insert file.1 file.2) ∅

theorem copied_all {files : Map Str} {n : Nat} (hn : files.toList.length ≤ n) : copied files n = files := by
  rw [copied, List.take_of_length_le hn, SortedMap.foldl_insert_toList]

theorem RowsWritten.foldl_closing (ht : RowsWritten s t) (m : Nat) :
    ((closing s t).take m).foldl Disk.apply t.disk = (t.disk.setFiles .metadata
      ((t.metadataFiles.take m).foldl (fun files file => files.insert file.1 file.2) ∅)).setFiles .cpVirtualMemory
        (copied (s.disk.files .virtualMemory) (m - 4)) := by
  have hnames : (t.metadataFiles.map Prod.fst).Nodup := by
    simp only [metadataFiles, List.map_cons, List.map_nil]
    decide
  have hnodup : ((t.metadataFiles.take m).map Prod.fst).Nodup := by
    rw [List.map_take]
    exact hnames.sublist (List.take_sublist _ _)
  have hempty : t.disk.files .metadata = ∅ := ht.otherFiles (by decide)
  have hvirtual : t.disk.files .virtualMemory = s.disk.files .virtualMemory :=
    (ht.otherFiles (by decide)).trans Disk.files_setFiles
  have hbare : t.disk.files .cpVirtualMemory = ∅ := ht.otherFiles (by decide)
  rw [closing, List.take_append, List.foldl_append, metadataActions, ← List.map_take, Disk.foldl_append, hempty,
    SortedMap.foldl_extend_eq hnodup fun _ _ => ExtTreeMap.getElem?_empty, copies, ← List.map_take, Disk.foldl_copy (by decide),
    Disk.files_setFiles_of_ne (by decide), hbare]
  · rfl
  · intro file hfile
    rw [Disk.files_setFiles_of_ne (by decide), hvirtual]
    exact ExtTreeMap.mem_toList_iff_getElem?_eq_some.mp (List.mem_of_mem_take hfile)

theorem RowsWritten.carries (ht : RowsWritten s t) (m : Nat) :
    Carries t m (((closing s t).take m).foldl Disk.apply t.disk) := by
  rw [ht.foldl_closing]
  refine ⟨?_, fun _ => ?_⟩
  · rw [Disk.files_setFiles_of_ne (by decide), Disk.files_setFiles]
  · rw [Disk.files_setFiles_of_ne (by decide), Disk.files_setFiles_of_ne (by decide)]

/-! ### A completed checkpoint -/

/-- What a new process `t` has of the state `s` that was checkpointed, `s'` being the state at the end of the checkpoint. -/
structure Resumes (s s' t : LRUCache) : Prop where
  held : t.residentFiles = s.residentFiles
  userSize : t.userSize = s.userSize
  virmemMeta : t.virmemMeta = s.virmemMeta
  memoryUsed : t.memoryUsed = s.memoryUsed
  files : t.disk.files .virtualMemory = s.disk.files .virtualMemory
  chunkInfo : t.chunkInfo = s'.chunkInfo

/-- A checkpoint is completed exactly when each series has its two counters. What it leaves on the disk then restores the
node. -/
theorem loadCheckpointing_checkpointing (h : s.Restorable) (hcounted : s.memoryUsed = s.residentTotal) (fuel : Nat)
    (isPrimary : Bool) :
    ((∃ s', s.checkpointing = .ok s') ↔ s.Indexable) ∧ ∀ s', s.checkpointing = .ok s' →
      ∃ t, (init s.capacity isPrimary (fun _ => []) s'.disk).loadCheckpointing (fuel + 1) = .ok t ∧ Resumes s s' t := by
  refine ⟨⟨fun ⟨_, hrun⟩ => h.indexable hrun, fun hindexable => ?_⟩, fun s' hrun => ?_⟩
  · obtain ⟨t, _, hrun⟩ := h.checkpointing_eq hindexable
    exact ⟨_, hrun⟩
  · obtain ⟨t, ht, hrun'⟩ := h.checkpointing_eq (h.indexable hrun)
    have hs' : s' = (closing s t).foldl act t := Except.ok.inj (hrun.symm.trans hrun')
    have hend : s'.disk = (closing s t).foldl Disk.apply t.disk := by rw [hs', foldl_act]
    have hcounters : s'.chunkInfo = t.chunkInfo := by rw [hs', foldl_act]
    have hlength : (closing s t).length = 4 + (s.disk.files .virtualMemory).toList.length := by
      rw [closing, List.length_append, copies, List.length_map]
      rfl
    have hdisk := ht.foldl_closing (closing s t).length
    have hcarries := ht.carries (closing s t).length
    rw [List.take_length, ← hend] at hdisk hcarries
    obtain ⟨u, hload, hheld, hvirmem, hsizes, hinfo, hmemory, hfiles⟩ := h.exists_recalled ht hcarries fuel isPrimary
    refine ⟨u, hload, ?_, ?_, ?_, ?_, ?_, ?_⟩
    · rw [hheld, if_pos (by omega)]
    · rw [hsizes, if_pos (by omega)]
    · rw [hvirmem, if_pos (by omega)]
    · rw [hmemory (by omega), hcounted]
    · rw [hfiles, Disk.files_setFiles, hdisk, Disk.files_setFiles, copied_all (by omega)]
    · rw [hinfo, if_pos (by omega), hcounters]

theorem eq_of_singleton {β : Type} {key k : Str} {value v : β} (hget : ((∅ : Map β).insert key value)[k]? = some v) :
    k = key ∧ v = value := by
  rw [SortedMap.getElem?_insert_eq] at hget
  split at hget
  · next heq => exact ⟨heq.symm, (Option.some.inj hget).symm⟩
  · simp at hget

/-- One user in memory and one in virtual memory. -/
theorem loadCheckpointing_checkpointing_two_users : ∃ s s' t : LRUCache,
    s.residentFiles "u".toList = some ((∅ : Map Str).insert "f".toList "abc".toList) ∧
      s.virmemMeta["v".toList]? = some [[0, 0, 4]] ∧ s.checkpointing = .ok s' ∧
        (init 20 true (fun _ => []) s'.disk).loadCheckpointing 1 = .ok t ∧ Resumes s s' t := by
  let s : LRUCache := { (fresh 20 true).addNode "u".toList "f".toList "abc".toList with
    memoryUsed := 3
    userSize := (∅ : Map Int).insert "u".toList 3
    chunkInfo := Function.update (fun _ => [0, 0]) .virtualMemory [0, 4]
    virmemMeta := (∅ : Map Records).insert "v".toList [[0, 0, 4]]
    disk := Disk.empty.setFiles .virtualMemory ((∅ : Map Str).insert "chunk0".toList "g,x,".toList) }
  have hnode : s.heap (.node 0) = ⟨none, none, "u".toList, (∅ : Map Str).insert "f".toList "abc".toList⟩ :=
    addNode_heap_self (s := fresh 20 true)
  have hrestorable : s.Restorable := by
    refine ⟨fun u r hu => ?_, fun u r hu => ?_, by decide +kernel, by decide, fun u r hu => ?_, by decide +kernel,
      fun u records hu => ?_, fun type => ?_, fun u n hu => ?_, fun u hu => ?_⟩
    · obtain ⟨rfl, rfl⟩ := eq_of_singleton hu
      exact congrArg Node.key hnode
    · obtain ⟨rfl, rfl⟩ := eq_of_singleton hu
      exact (SortedMap.getElem?_insert_eq ..).trans (if_neg (by decide))
    · obtain ⟨rfl, rfl⟩ := eq_of_singleton hu
      exact (congrArg Node.value hnode).symm ▸ ⟨plain_empty.insert (by decide) (by decide), insert_ne_empty⟩
    · obtain ⟨rfl, rfl⟩ := eq_of_singleton hu
      refine ⟨List.cons_ne_nil _ _, fun record hrecord => ?_⟩
      obtain rfl := List.mem_singleton.mp hrecord
      exact ⟨rfl, by decide⟩
    · cases type
      all_goals exact ⟨by decide, by decide⟩
    · obtain ⟨rfl, rfl⟩ := eq_of_singleton hu
      decide
    · have hname : u = "u".toList ∨ u = "v".toList := by
        simp only [ExtTreeMap.mem_iff_isSome_getElem?, Option.isSome_iff_exists] at hu
        rcases hu with ⟨_, hu⟩ | ⟨_, hu⟩ | ⟨_, hu⟩
        · exact Or.inl (eq_of_singleton hu).1
        · exact Or.inr (eq_of_singleton hu).1
        · exact Or.inl (eq_of_singleton hu).1
      rcases hname with rfl | rfl
      all_goals exact ⟨by decide, by decide, by decide, by decide⟩
  have hindexable : s.Indexable := fun type => by cases type <;> rfl
  obtain ⟨hcompletes, hresumes⟩ := loadCheckpointing_checkpointing hrestorable (by decide +kernel) 0 true
  obtain ⟨s', hrun⟩ := hcompletes.mpr hindexable
  obtain ⟨t, hload, hresumed⟩ := hresumes s' hrun
  exact ⟨s, s', t, (residentFiles_of_resident ExtTreeMap.getElem?_insert_self).trans (congrArg (fun n => some n.value) hnode),
    ExtTreeMap.getElem?_insert_self, hrun, hload, hresumed⟩

end PennCloud.LRUCache
