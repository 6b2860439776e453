import PennCloud.Kv.Proof.Gets
import PennCloud.Kv.Proof.Lru

/-!
# Reloading under memory pressure

A user comes back from virtual memory file by file, and others leave while it does. From its first file on its
own node is the last of the list, so it is never the one to leave.
-/

namespace PennCloud.LRUCache

open DList Std Shedding

variable {s s' t t' : LRUCache} {user filename value u w row : Str} {r : Ref} {q gone planned : List Str}
  {files : Map Str} {chunk fill room : Int} {commFd seqNum : Int}

/-! ### Contents on disk -/

/-- The records of the user show bytes that are in the files. A resident has no records. -/
def OnDisk (s : LRUCache) (w : Str) : Prop :=
  ∀ record ∈ s.virmemMeta.getD w [], ∃ (chunk start length : Int) (bytes : Str), record = [chunk, start, length] ∧
    (s.disk.files .virtualMemory)[chunkName chunk]? = some bytes ∧ start + length ≤ bytes.length

/-- Chunk files have only become longer. -/
def Grows (s s' : LRUCache) : Prop :=
  ∀ (name bytes : Str), (s.disk.files .virtualMemory)[name]? = some bytes →
    ∃ more, (s'.disk.files .virtualMemory)[name]? = some (bytes ++ more)

theorem OnDisk.of_none (hvirmem : s.virmemMeta[w]? = none) : s.OnDisk w := by
  intro record hrecord
  rw [ExtTreeMap.getD_eq_getD_getElem?, hvirmem] at hrecord
  exact absurd hrecord List.not_mem_nil

theorem OnDisk.of_recorded (h : s.Recorded .virtualMemory w row) : s.OnDisk w := by
  obtain ⟨chunk, front, back, hmeta, hfile⟩ := h
  intro record hrecord
  have hrecords : s.virmemMeta.getD w [] = [[chunk, (front.length : Int), (row.length : Int)]] := by
    rw [ExtTreeMap.getD_eq_getD_getElem?]
    exact congrArg (Option.getD · []) hmeta
  rw [hrecords, List.mem_singleton] at hrecord
  refine ⟨chunk, front.length, row.length, _, hrecord, hfile, ?_⟩
  rw [List.length_append, List.length_append]
  omega

theorem OnDisk.congr (h : s.OnDisk w) (hvirmem : s'.virmemMeta[w]? = s.virmemMeta[w]?)
    (hgrow : s.Grows s') : s'.OnDisk w := by
  intro record hrecord
  rw [ExtTreeMap.getD_eq_getD_getElem?, hvirmem, ← ExtTreeMap.getD_eq_getD_getElem?] at hrecord
  obtain ⟨chunk, start, length, bytes, hshape, hfile, hinside⟩ := h record hrecord
  obtain ⟨more, hgrown⟩ := hgrow _ _ hfile
  refine ⟨chunk, start, length, _, hshape, hgrown, ?_⟩
  rw [List.length_append]
  omega

theorem readAt_grown {bytes more : Str} {start length : Int} (hinside : start + length ≤ bytes.length) :
    Disk.readAt (some (bytes ++ more)) start length = Disk.readAt (some bytes) start length := by
  rw [Disk.readAt, Disk.readAt]
  split
  · rfl
  · next hlength =>
      split
      · rfl
      · next hstart => rw [List.drop_append_of_le_length (by omega),
          List.take_append_of_le_length (by rw [List.length_drop]; omega)]

theorem OnDisk.readRow_eq (h : s.OnDisk w)
    (hgrow : s.Grows s') :
    readRow s'.disk .virtualMemory (s.virmemMeta.getD w []) = readRow s.disk .virtualMemory (s.virmemMeta.getD w []) := by
  rw [readRow, readRow]
  revert h
  rw [OnDisk]
  generalize s.virmemMeta.getD w [] = records
  generalize ([] : Str) = before
  intro h
  induction records generalizing before with
  | nil => rfl
  | cons record records ih =>
      obtain ⟨chunk, start, length, bytes, rfl, hfile, hinside⟩ := h record List.mem_cons_self
      obtain ⟨more, hgrown⟩ := hgrow _ _ hfile
      rw [List.foldlM_cons, List.foldlM_cons]
      simp only [atIdx, List.getElem?_cons_zero, List.getElem?_cons_succ, Run.ok_bind, ChunkType.dir, hfile, hgrown,
        readAt_grown hinside]
      apply Run.bind_congr
      intro _ _
      exact ih _ fun record hrecord => h record (List.mem_cons_of_mem _ hrecord)

theorem OnDisk.rowOnDisk_eq (h : s.OnDisk w) (hvirmem : s'.virmemMeta[w]? = s.virmemMeta[w]?)
    (hgrow : s.Grows s') : s'.rowOnDisk w = s.rowOnDisk w := by
  have hrecords : s'.virmemMeta.getD w [] = s.virmemMeta.getD w [] := by
    rw [ExtTreeMap.getD_eq_getD_getElem?, hvirmem, ← ExtTreeMap.getD_eq_getD_getElem?]
  rw [rowOnDisk, hrecords, h.readRow_eq hgrow, ← rowOnDisk]

/-! ### Eviction -/

theorem ChunkAt.nonneg (h : s.ChunkAt .virtualMemory chunk fill) : 0 ≤ fill := by
  rw [← h.length]
  exact Int.natCast_nonneg _

/-- The first user of the queue leaves for the end of the current chunk. -/
theorem Waits.spill (h : s.Waits (u :: q)) (hat : s.ChunkAt .virtualMemory chunk fill)
    (hspace : fill + (rowOf (s.filesOf u)).length ≤ chunkSize) :
    ∃ s', s.useVirtualMemory = .ok s' ∧
      Dropped s (s.appendRow .virtualMemory u (rowOf (s.filesOf u)) chunk fill) s' u q :=
  h.useVirtualMemory (writeToChunkWith_fits hat.info hat.nonneg hspace)

theorem grows_appendRow : s.Grows (s.appendRow .virtualMemory u row chunk fill) := by
  intro name bytes hfile
  have hfile' : ((s.appendRow .virtualMemory u row chunk fill).disk.files .virtualMemory)[name]? =
      if chunkName chunk = name then some (s.disk.content .virtualMemory (chunkName chunk) ++ row)
      else (s.disk.files .virtualMemory)[name]? := appendRow_file name
  rw [hfile']
  split
  · next hname =>
      refine ⟨row, ?_⟩
      rw [Disk.content, hname, ExtTreeMap.getD_eq_getD_getElem?, hfile]
      rfl
  · exact ⟨[], by rw [hfile, List.append_nil]⟩

theorem appendRow_virmemMeta_of_ne (hne : u ≠ w) :
    (s.appendRow .virtualMemory u row chunk fill).virmemMeta[w]? = s.virmemMeta[w]? := by
  have hrecords : ((s.appendRow .virtualMemory u row chunk fill).metaOf .virtualMemory)[w]? =
      if u = w then some [[chunk, fill, (row.length : Int)]] else (s.metaOf .virtualMemory)[w]? := appendRow_metaOf w
  rw [if_neg hne] at hrecords
  exact hrecords

/-- Everybody's contents stay, be they in memory or on disk. -/
theorem Dropped.contents (h : Dropped s (s.appendRow .virtualMemory u (rowOf (s.filesOf u)) chunk fill) s' u q)
    (hat : s.ChunkAt .virtualMemory chunk fill) (hplain : Plain (s.filesOf u)) (hw : s.OnDisk w) :
    s'.OnDisk w ∧ s'.filesOf w = s.filesOf w := by
  by_cases huw : u = w
  · subst huw
    have hrecorded : s'.Recorded .virtualMemory u (rowOf (s.filesOf u)) :=
      (recorded_appendRow hat).congr h.virmemMeta (congrArg Disk.files h.disk)
    refine ⟨.of_recorded hrecorded, ?_⟩
    rw [filesOf_of_absent (by rw [h.tablets, if_pos rfl]), hrecorded.rowOnDisk, hplain.filesOfRow]
  · have hvirmem : s'.virmemMeta[w]? = s.virmemMeta[w]? := by
      rw [h.virmemMeta]
      exact appendRow_virmemMeta_of_ne huw
    have hgrow : s.Grows s' := by
      rw [Grows, h.disk]
      exact grows_appendRow
    refine ⟨hw.congr hvirmem hgrow, ?_⟩
    have htablets : s'.tablets[w]? = s.tablets[w]? := by rw [h.tablets, if_neg huw]
    cases hresident : s.tablets[w]? with
    | some r => rw [filesOf_of_resident (htablets.trans hresident), filesOf_of_resident hresident, h.values]
    | none =>
        rw [filesOf_of_absent (htablets.trans hresident), filesOf_of_absent hresident, hw.rowOnDisk_eq hvirmem hgrow]

/-- The bytes of the rows of these users. -/
def rowsOf (s : LRUCache) (gone : List Str) : Nat := weight (fun w => (rowOf (s.filesOf w)).length) gone

theorem rowsOf_append (gone gone' : List Str) : s.rowsOf (gone ++ gone') = s.rowsOf gone + s.rowsOf gone' :=
  weight_append ..

theorem rowsOf_cons (u : Str) (gone : List Str) : s.rowsOf (u :: gone) = (rowOf (s.filesOf u)).length + s.rowsOf gone := rfl

/-- What has been written is the rows of `gone`, and nobody but `user` has other contents. -/
structure Spilled (s t : LRUCache) (user : Str) (chunk fill : Int) (gone : List Str) : Prop where
  chunkAt : t.ChunkAt .virtualMemory chunk (fill + s.rowsOf gone)
  syscalls : t.syscalls =
    s.syscalls ++ gone.map fun w => FsAction.append .virtualMemory (chunkName chunk) (rowOf (s.filesOf w))
  contents : ∀ w, w ≠ user → s.OnDisk w → t.OnDisk w ∧ t.filesOf w = s.filesOf w
  sent : t.sent = s.sent
  capacity : t.capacity = s.capacity

theorem Spilled.evict (h : Spilled s t user chunk fill gone)
    (hdropped : Dropped t (t.appendRow .virtualMemory u (rowOf (t.filesOf u)) chunk (fill + s.rowsOf gone)) t' u q)
    (hsent : t'.sent = t.sent) (huser : u ≠ user) (hdisk : s.OnDisk u) (hplain : Plain (s.filesOf u)) :
    Spilled s t' user chunk fill (gone ++ [u]) := by
  have hfiles := (h.contents u huser hdisk).2
  rw [hfiles] at hdropped
  have hat : (t.appendRow .virtualMemory u (rowOf (s.filesOf u)) chunk (fill + s.rowsOf gone)).ChunkAt .virtualMemory
      chunk (fill + s.rowsOf gone + (rowOf (s.filesOf u)).length) := chunkAt_appendRow h.chunkAt
  have hrows : fill + s.rowsOf gone + (rowOf (s.filesOf u)).length = fill + (s.rowsOf (gone ++ [u]) : Int) := by
    rw [rowsOf_append, Int.natCast_add, Int.add_assoc]
    rfl
  refine ⟨⟨?_, ?_⟩, ?_, fun w hw hwdisk => ?_, hsent.trans h.sent, hdropped.capacity.trans h.capacity⟩
  · rw [hdropped.chunkInfo, hat.info, hrows]
  · rw [hdropped.disk, hat.length, hrows]
  · rw [hdropped.syscalls, List.map_append, ← List.append_assoc, ← h.syscalls]
    rfl
  · obtain ⟨hdisk', hfiles'⟩ := h.contents w hw hwdisk
    rw [← hfiles] at hdropped hplain
    obtain ⟨hdisk'', hfiles''⟩ := hdropped.contents h.chunkAt hplain hdisk'
    exact ⟨hdisk'', hfiles''.trans hfiles'⟩

/-- A step that writes nothing and concerns nobody else. -/
theorem Spilled.still (h : Spilled s t user chunk fill gone) (hfiles : ∀ w, w ≠ user → t'.filesOf w = t.filesOf w)
    (hvirmem : ∀ w, w ≠ user → t'.virmemMeta[w]? = t.virmemMeta[w]?) (hinfo : t'.chunkInfo = t.chunkInfo)
    (hdisk : t'.disk = t.disk) (hsyscalls : t'.syscalls = t.syscalls) (hsent : t'.sent = t.sent)
    (hcapacity : t'.capacity = t.capacity) : Spilled s t' user chunk fill gone := by
  refine ⟨⟨?_, ?_⟩, hsyscalls.trans h.syscalls, fun w hw hwdisk => ?_, hsent.trans h.sent, hcapacity.trans h.capacity⟩
  · rw [hinfo, h.chunkAt.info]
  · rw [hdisk, h.chunkAt.length]
  · obtain ⟨hdisk', hfiles'⟩ := h.contents w hw hwdisk
    refine ⟨hdisk'.congr (hvirmem w hw) fun name bytes hfile => ⟨[], ?_⟩, (hfiles w hw).trans hfiles'⟩
    rw [hdisk, hfile, List.append_nil]

/-! ### A user on its way back -/

/-- The user itself, once it is resident. -/
def own (s : LRUCache) (user : Str) : List Str := s.tablets[user]?.toList.map fun _ => user

theorem own_of_absent (habsent : s.tablets[user]? = none) : s.own user = [] := by
  rw [own, habsent]
  rfl

theorem own_of_resident (hresident : s.tablets[user]? = some r) : s.own user = [user] := by
  rw [own, hresident]
  rfl

theorem weight_own (hfiles : s.filesOf user = files) (hheld : s.tablets[user]? = none → files = ∅) :
    weight s.bytes (s.own user) = total files := by
  cases hresident : s.tablets[user]? with
  | none =>
      rw [own_of_absent hresident, hheld hresident, total_empty]
      rfl
  | some r =>
      rw [own_of_resident hresident, weight_cons, bytes, hfiles]
      rfl

/-- In front of the user's own node, if it has one, stand the nodes of the others. -/
theorem Waits.exists_others (h : s.Waits (q ++ s.own user)) :
    ∃ others, s.usersOf others = q ∧ Forward s.links .head .tail (others ++ s.tablets[user]?.toList) ∧
      s.Lists (others ++ s.tablets[user]?.toList) := by
  obtain ⟨l, hlined, husers⟩ := h.lined
  obtain ⟨others, last, rfl, hothers, hlast⟩ := List.map_eq_append_iff.mp husers
  have hown : last = s.tablets[user]?.toList := by
    cases hresident : s.tablets[user]? with
    | none =>
        rw [own_of_absent hresident, List.map_eq_nil_iff] at hlast
        exact hlast
    | some r =>
        rw [own_of_resident hresident] at hlast
        obtain ⟨x, rfl, hkey⟩ := List.map_eq_singleton_iff.mp hlast
        have hx := hlined.lists.resident (List.mem_append_right others (List.mem_singleton_self x))
        rw [hkey, hresident] at hx
        rw [← Option.some.inj hx]
        rfl
  rw [hown] at hlined
  exact ⟨others, hothers, hlined.forward, hlined.lists⟩

/-- The user has got these files so far, behind the others of the queue. -/
structure Halfway (s : LRUCache) (user : Str) (q : List Str) (files : Map Str) : Prop where
  building : s.Building user files
  waits : s.Waits (q ++ s.own user)
  linked : ∀ r, s.tablets[user]? = some r → s.links.prev r ≠ none

theorem Halfway.memoryUsed_eq (h : s.Halfway user q files) :
    s.memoryUsed = ((weight s.bytes q + total files : Nat) : Int) := by
  have hheld : s.tablets[user]? = none → files = ∅ := by
    intro habsent
    rcases h.building.held with ⟨_, hfiles⟩ | ⟨i, hresident, _⟩
    · exact hfiles
    · exact absurd (habsent.symm.trans hresident).symm (Option.some_ne_none _)
  rw [h.waits.memoryUsed_eq, weight_append, weight_own h.building.filesOf hheld]

theorem Halfway.fits_iff (h : s.Halfway user q files) (hvalue : (value.length : Int) ≤ s.capacity) :
    s.fits value = true ↔ ((weight s.bytes q + total files : Nat) : Int) + value.length ≤ s.capacity := by
  rw [h.waits.fits_iff hvalue, ← h.waits.memoryUsed_eq, h.memoryUsed_eq]

theorem Halfway.notMem (h : s.Halfway user q files) : user ∉ q := by
  intro hmem
  obtain ⟨r, hresident⟩ := h.waits.resident_iff.mp (List.mem_append_left _ hmem)
  have hnodup := h.waits.nodup
  rw [own_of_resident hresident] at hnodup
  exact (List.nodup_append.mp hnodup).2.2 user hmem user (List.mem_singleton_self user) rfl

/-- What putting one file of the user leaves alone. -/
structure Placed (s t : LRUCache) (user : Str) : Prop where
  files : ∀ w, w ≠ user → t.filesOf w = s.filesOf w
  virmemMeta : t.virmemMeta = s.virmemMeta
  chunkInfo : t.chunkInfo = s.chunkInfo
  disk : t.disk = s.disk
  syscalls : t.syscalls = s.syscalls
  sent : t.sent = s.sent
  capacity : t.capacity = s.capacity

theorem Halfway.of_open {others : List Ref} {need : Nat} (htidy : t.Tidy) (hbuilding : t.Building user files)
    (hopen : (Way.listed others).Open t user files need) (hmemory : t.memoryUsed = t.residentTotal)
    (hlimit : t.memoryUsed ≤ t.capacity) (hsmall : t.capacity ≤ intMax)
    (hlinked : ∀ r, t.tablets[user]? = some r → t.links.prev r ≠ none) : t.Halfway user (t.usersOf others) files := by
  have hown : t.usersOf t.tablets[user]?.toList = t.own user := by
    cases hresident : t.tablets[user]? with
    | none =>
        rw [own_of_absent hresident]
        rfl
    | some r =>
        rw [own_of_resident hresident, usersOf]
        exact congrArg ([·]) (htidy.keyed user r hresident)
  refine ⟨hbuilding, ⟨⟨_, ⟨htidy, hopen.1, hopen.2.1⟩, ?_⟩, hmemory, hlimit, hsmall⟩, hlinked⟩
  rw [usersOf_append, hown]

theorem Halfway.place (h : s.Halfway user q files)
    (hroom : ((weight s.bytes q + total files : Nat) : Int) + value.length ≤ s.capacity) (filename : Str) :
    ∃ t, (∀ load, s.placeValue load user filename value false = .ok t) ∧
      (t.addMemory value.length).Halfway user q (addFile files (filename, value)) ∧
      Placed s (t.addMemory value.length) user := by
  have hmemory := h.memoryUsed_eq
  have hsmall := h.waits.small
  have hcounted : toInt32 (s.memoryUsed + value.length) = s.memoryUsed + value.length := by
    rw [hmemory, toInt32_of_range (by simp only [intMax]; omega) (by omega)]
  have htidy := h.waits.tidy
  have hvirmem := h.building.virmem
  obtain ⟨p, hp⟩ := h.building.tail
  obtain ⟨others, rfl, hforward, hlists⟩ := h.waits.exists_others
  have hopen : (Way.listed others).Open s user files (value.length + 0) := ⟨hforward, hlists, by omega⟩
  rcases h.building.held with ⟨habsent, rfl⟩ | ⟨i, hresident, hvalue⟩
  · have hadded : addFile ∅ (filename, value) = (∅ : Map Str).insert filename value :=
      addFile_of_none ExtTreeMap.getElem?_empty
    have hopen' : (Way.listed others).Open
        (((s.addNode user filename value).toTail (.node s.nodes) p).addMemory value.length) user _ 0 :=
      hopen.addNode htidy ⟨habsent, hvirmem⟩ hp
    have hnode : (s.addNode user filename value).tablets[user]? = some (.node s.nodes) := by
      rw [addNode_tablets, if_pos rfl]
    have hothers : (((s.addNode user filename value).toTail (.node s.nodes) p).addMemory value.length).usersOf others =
        s.usersOf others := by
      refine List.map_congr_left fun r hr => ?_
      have hne := htidy.ne_fresh (hlists.resident (List.mem_append_left _ hr))
      rw [addMemory_heap, toTail_key, addNode_heap hne]
    refine ⟨_, fun load => placeValue_absent habsent hvirmem hp, ?_, ⟨fun w hw => ?_, rfl, rfl, rfl, rfl, rfl, rfl⟩⟩
    · rw [hadded, ← hothers]
      refine .of_open ((htidy.addNode hvirmem).toTail.addMemory _) ⟨Or.inr ⟨s.nodes, hnode, ?_⟩, hvirmem, _, toTail_prev_tail ..⟩
        hopen' ?_ ?_ hsmall ?_
      · rw [addMemory_heap, toTail_value, addNode_heap_self]
      · rw [addMemory_memoryUsed, toTail_memoryUsed]
        change toInt32 (s.memoryUsed + value.length) = ((s.addNode user filename value).residentTotal : Int)
        rw [hcounted, residentTotal_addNode htidy habsent, h.waits.memory, Int.natCast_add]
      · change toInt32 (s.memoryUsed + value.length) ≤ s.capacity
        omega
      · intro r hr
        obtain rfl := Option.some.inj (hnode.symm.trans hr)
        rw [addMemory_links, toTail_links, Links.moveToTail_prev, Function.update_of_ne (by simp), Function.update_self]
        exact Option.some_ne_none _
    · have hfiles : (((s.addNode user filename value).toTail (.node s.nodes) p).addMemory value.length).filesOf w =
          (s.addNode user filename value).filesOf w := filesOf_congr rfl (fun _ => rfl) rfl rfl
      rw [hfiles, filesOf_addNode htidy, if_neg (Ne.symm hw)]
  · have hr := htidy.ne_tail hresident
    obtain rfl := h.building.filesOf
    have hplace : ∀ load, s.placeValue load user filename value false = .ok
        ((s.setValue (.node i) (addFile (s.filesOf user) (filename, value))).toTail (.node i) p) := by
      intro load
      rw [placeValue_resident hresident hvirmem hp hr, ← filesOf_of_resident hresident]
      rfl
    have hothers : (((s.setValue (.node i) (addFile (s.filesOf user) (filename, value))).toTail (.node i) p).addMemory
        value.length).usersOf others = s.usersOf others :=
      List.map_congr_left fun _ _ => setValue_key
    refine ⟨_, hplace, ?_, ⟨fun w hw => ?_, rfl, rfl, rfl, rfl, rfl, rfl⟩⟩
    · rw [← hothers]
      refine .of_open (htidy.setValue.toTail.addMemory _) ⟨Or.inr ⟨i, hresident, ?_⟩, hvirmem, _, toTail_prev_tail ..⟩
        (hopen.setValue htidy hresident hp) ?_ ?_ hsmall ?_
      · rw [addMemory_heap, toTail_value, setValue_value_self]
      · rw [addMemory_memoryUsed, toTail_memoryUsed]
        change toInt32 (s.memoryUsed + value.length) = ((s.setValue (.node i) _).residentTotal : Int)
        rw [hcounted, residentTotal_addFile htidy hresident, h.waits.memory, Int.natCast_add]
      · change toInt32 (s.memoryUsed + value.length) ≤ s.capacity
        omega
      · -- the node is its own predecessor now, which is enough to read it once more
        intro r hr
        obtain rfl := Option.some.inj (hresident.symm.trans hr)
        rw [addMemory_links, toTail_links, Links.moveToTail_prev, Function.update_of_ne (by simp), Function.update_self]
        exact Option.some_ne_none _
    · have hfiles : (((s.setValue (.node i) (addFile (s.filesOf user) (filename, value))).toTail (.node i) p).addMemory
          value.length).filesOf w = (s.setValue (.node i) (addFile (s.filesOf user) (filename, value))).filesOf w :=
        filesOf_congr rfl (fun _ => rfl) rfl rfl
      rw [hfiles, filesOf_setValue htidy hresident, if_neg (Ne.symm hw)]

theorem own_congr (htablets : t.tablets[user]? = s.tablets[user]?) : t.own user = s.own user := by
  rw [own, htablets, own]

theorem Halfway.drop (h : s.Halfway user (u :: q) files)
    (hdropped : Dropped s (s.appendRow .virtualMemory u row chunk fill) t u (q ++ s.own user)) :
    t.Halfway user q files := by
  have hne : u ≠ user := fun heq => h.notMem (heq ▸ List.mem_cons_self)
  have htablets : t.tablets[user]? = s.tablets[user]? := by rw [hdropped.tablets, if_neg hne]
  have hwaits : t.Waits (q ++ t.own user) := by
    rw [own_congr htablets]
    exact hdropped.waits
  obtain ⟨_, _, hforward, _⟩ := hwaits.exists_others
  refine ⟨⟨?_, ?_, _, hforward.last⟩, hwaits, fun r hr => ?_⟩
  · rw [htablets]
    refine h.building.held.imp_right ?_
    rintro ⟨i, hresident, hvalue⟩
    exact ⟨i, hresident, (hdropped.values _).trans hvalue⟩
  · rw [hdropped.virmemMeta, appendRow_virmemMeta_of_ne hne, h.building.virmem]
  · rw [htablets] at hr
    exact hdropped.linked r (h.linked r hr)

/-! ### Restoring -/

/-- The user has got these files. Of the users that were to leave until it has room, some have left, and the others
still stand at the front of the queue. -/
structure Restoring (s t : LRUCache) (user : Str) (chunk fill room : Int) (planned q : List Str) (files : Map Str) :
    Prop where
  halfway : t.Halfway user q files
  spilled : ∃ gone, gone ++ shed s.bytes room q = planned ∧ Spilled s t user chunk fill gone
  others : ∀ w ∈ q, s.OnDisk w ∧ Plain (s.filesOf w)

theorem Restoring.capacity (h : Restoring s t user chunk fill room planned q files) : t.capacity = s.capacity := by
  obtain ⟨gone, _, hspilled⟩ := h.spilled
  exact hspilled.capacity

theorem Restoring.bytes_eq (h : Restoring s t user chunk fill room planned q files) :
    weight t.bytes q = weight s.bytes q := by
  obtain ⟨gone, _, hspilled⟩ := h.spilled
  refine weight_congr fun w hw => congrArg total ?_
  exact (hspilled.contents w (fun heq => h.halfway.notMem (heq ▸ hw)) (h.others w hw).1).2

theorem Restoring.place (h : Restoring s t user chunk fill room planned q files)
    (hroom : ((weight t.bytes q + total files : Nat) : Int) + value.length ≤ t.capacity) (filename : Str) :
    ∃ t', (∀ load, t.placeValue load user filename value false = .ok t') ∧
      Restoring s (t'.addMemory value.length) user chunk fill room planned q (addFile files (filename, value)) := by
  obtain ⟨gone, hplanned, hspilled⟩ := h.spilled
  obtain ⟨t', hplace, hhalfway, hplaced⟩ := h.halfway.place hroom filename
  refine ⟨t', hplace, hhalfway, ⟨gone, hplanned, ?_⟩, h.others⟩
  apply hspilled.still hplaced.files _ hplaced.chunkInfo hplaced.disk hplaced.syscalls hplaced.sent hplaced.capacity
  intro w _
  rw [hplaced.virmemMeta]

theorem Restoring.evict (h : Restoring s t user chunk fill room planned (u :: q) files)
    (hspace : fill + s.rowsOf planned ≤ chunkSize) (hlarge : room < (weight s.bytes (u :: q) : Int)) :
    ∃ t', t.useVirtualMemory = .ok t' ∧ Restoring s t' user chunk fill room planned q files := by
  obtain ⟨gone, hplanned, hspilled⟩ := h.spilled
  obtain ⟨hdisk, hplain⟩ := h.others u List.mem_cons_self
  have hne : u ≠ user := fun heq => h.halfway.notMem (heq ▸ List.mem_cons_self)
  rw [shed_of_lt hlarge] at hplanned
  have hrow : fill + s.rowsOf gone + (rowOf (t.filesOf u)).length ≤ chunkSize := by
    rw [← hplanned, rowsOf_append, rowsOf_cons] at hspace
    rw [(hspilled.contents u hne hdisk).2]
    omega
  obtain ⟨t', hevict, hdropped⟩ := Waits.spill h.halfway.waits hspilled.chunkAt hrow
  refine ⟨t', hevict, h.halfway.drop hdropped, ⟨gone ++ [u], ?_, ?_⟩, fun w hw => h.others w (List.mem_cons_of_mem _ hw)⟩
  · rw [List.append_assoc, List.singleton_append, hplanned]
  · exact hspilled.evict hdropped (sent_useVirtualMemory hevict) hne hdisk hplain

theorem Restoring.putLoop_fits (h : Restoring s t user chunk fill room planned q files)
    (hroom : ((weight t.bytes q + total files : Nat) : Int) + value.length ≤ t.capacity) (filename : Str)
    (commFd seqNum : Int) :
    ∃ t' q', q'.length ≤ q.length ∧ Restoring s t' user chunk fill room planned q' (addFile files (filename, value)) ∧
      ∀ fuel, q.length < fuel → LRUCache.putLoop fuel t user filename value commFd false seqNum = .ok t' := by
  have hfits : t.fits value = true := (h.halfway.fits_iff (by omega)).mpr hroom
  obtain ⟨t', hplace, hrestoring⟩ := h.place hroom filename
  refine ⟨_, q, Nat.le_refl _, hrestoring, fun fuel hfuel => ?_⟩
  obtain ⟨n, rfl⟩ := Nat.exists_eq_add_of_lt hfuel
  rw [putLoop_internal_succ, if_pos hfits, hplace, Run.ok_bind]

theorem Restoring.putLoop (h : Restoring s t user chunk fill room planned q files)
    (hspace : fill + s.rowsOf planned ≤ chunkSize) (hroom : 0 ≤ room)
    (hneed : (total files : Int) + value.length + room ≤ s.capacity) (filename : Str) (commFd seqNum : Int) :
    ∃ t' q', q'.length ≤ q.length ∧
      Restoring s t' user chunk fill room planned q' (addFile files (filename, value)) ∧
      ∀ fuel, q.length < fuel → LRUCache.putLoop fuel t user filename value commFd false seqNum = .ok t' := by
  induction q generalizing t with
  | nil =>
      have hcapacity := h.capacity
      refine h.putLoop_fits ?_ filename commFd seqNum
      have hnobody : weight t.bytes [] = 0 := rfl
      omega
  | cons u q ih =>
      have hcapacity := h.capacity
      by_cases hfits : ((weight t.bytes (u :: q) + total files : Nat) : Int) + value.length ≤ t.capacity
      · exact h.putLoop_fits hfits filename commFd seqNum
      · have hunfit : ¬ t.fits value = true := fun hfits' => hfits ((h.halfway.fits_iff (by omega)).mp hfits')
        have hbytes := h.bytes_eq
        obtain ⟨t₁, hevict, hrestoring⟩ := h.evict hspace (by omega)
        obtain ⟨t', q', hle, hrestored, hrun⟩ := ih hrestoring
        refine ⟨t', q', Nat.le_succ_of_le hle, hrestored, fun fuel hfuel => ?_⟩
        obtain ⟨n, rfl⟩ := Nat.exists_eq_add_of_lt hfuel
        rw [putLoop_internal_succ, if_neg hunfit, hevict, Run.ok_bind]
        apply hrun
        rw [List.length_cons]
        omega

theorem Restoring.restore {pairs : List (Str × Str)} (h : Restoring s t user chunk fill room planned q files)
    (hspace : fill + s.rowsOf planned ≤ chunkSize) (hroom : 0 ≤ room)
    (hneed : (total files : Int) + bytesOf pairs + room ≤ s.capacity) (commFd : Int) :
    ∃ t' q', Restoring s t' user chunk fill room planned q' (pairs.foldl addFile files) ∧
      ∀ fuel, q.length < fuel →
        pairs.foldlM (fun s file => put fuel s user file.1 file.2 commFd false 0) t = .ok t' := by
  induction pairs generalizing t q files with
  | nil => exact ⟨t, q, h, fun _ _ => rfl⟩
  | cons file pairs ih =>
      have hcapacity := h.capacity
      have hsmall := h.halfway.waits.small
      rw [bytesOf_cons] at hneed
      have hnext : (total files : Int) + file.2.length + room ≤ s.capacity := by omega
      obtain ⟨t₁, q₁, hle, hrestoring, hput⟩ := h.putLoop hspace hroom hnext file.1 commFd 0
      have hrest : (total (addFile files file) : Int) + bytesOf pairs + room ≤ s.capacity := by
        rw [total_addFile]
        omega
      obtain ⟨t', q', hrestored, hrun⟩ := ih hrestoring hrest
      refine ⟨t', q', hrestored, fun fuel hfuel => ?_⟩
      have hlength : ¬ toSize t.capacity < file.2.length := by
        rw [toSize_of_nonneg (by omega) hsmall]
        omega
      rw [List.foldlM_cons, put, putWith, if_neg hlength, hput fuel hfuel, Run.ok_bind]
      exact hrun fuel (by omega)

theorem Waits.clearMetadata (h : s.Waits q) : (s.clearMetadata .virtualMemory user).Waits q := by
  obtain ⟨l, hlined, hq⟩ := h.lined
  exact ⟨⟨l, ⟨hlined.tidy.clearMetadata, hlined.forward, hlined.lists⟩, hq⟩, h.memory, h.limit, h.small⟩

theorem Waits.restoring (h : s.Waits q) (habsent : s.tablets[user]? = none) (hat : s.ChunkAt .virtualMemory chunk fill)
    (hplain : ∀ w ∈ q, Plain (s.filesOf w)) (room : Int) :
    Restoring s (s.clearMetadata .virtualMemory user) user chunk fill room (shed s.bytes room q) q ∅ := by
  have hcleared : (s.clearMetadata .virtualMemory user).Waits
      (q ++ (s.clearMetadata .virtualMemory user).own user) := by
    have hown : (s.clearMetadata .virtualMemory user).own user = [] := own_of_absent habsent
    rw [hown, List.append_nil]
    exact h.clearMetadata
  obtain ⟨_, _, hforward, _⟩ := hcleared.exists_others
  refine ⟨⟨⟨Or.inl ⟨habsent, rfl⟩, ?_, _, hforward.last⟩, hcleared, fun r hr => ?_⟩, ⟨[], rfl, ?_⟩, fun w hw => ⟨?_, hplain w hw⟩⟩
  · rw [clearMetadata_getElem?, if_pos rfl]
  · exact absurd (habsent.symm.trans hr).symm (Option.some_ne_none r)
  · have hnothing : fill + (s.rowsOf [] : Int) = fill := Int.add_zero fill
    refine ⟨⟨by rw [hnothing]; exact hat.info, by rw [hnothing]; exact hat.length⟩, (List.append_nil _).symm, fun w hw hdisk => ⟨?_, ?_⟩, rfl, rfl⟩
    · apply hdisk.congr
      · rw [clearMetadata_getElem?, if_neg (Ne.symm hw)]
      · exact fun name bytes hfile => ⟨[], hfile.trans (congrArg some (List.append_nil bytes).symm)⟩
    · exact filesOf_clearMetadata (Ne.symm hw)
  · obtain ⟨r, hr⟩ := h.resident_iff.mp hw
    exact .of_none (h.tidy.disjoint w r hr)

/-! ### Reloading -/

/-- The user is back, and only those have left that had to. -/
structure Restored (s t : LRUCache) (user : Str) (chunk fill : Int) (gone : List Str) (files : Map Str) : Prop where
  halfway : ∃ q, t.Halfway user q files
  spilled : Spilled s t user chunk fill gone

theorem Restoring.restored (h : Restoring s t user chunk fill room planned q files)
    (hroom : room = s.capacity - total files) : Restored s t user chunk fill planned files := by
  have hcapacity := h.capacity
  have hmemory := h.halfway.memoryUsed_eq
  have hlimit := h.halfway.waits.limit
  have hbytes := h.bytes_eq
  obtain ⟨gone, hplanned, hspilled⟩ := h.spilled
  rw [shed_of_le (by omega), List.append_nil] at hplanned
  exact ⟨⟨q, h.halfway⟩, hplanned ▸ hspilled⟩

theorem Waits.loadUserFromDisk (h : s.Waits q) (hplains : ∀ w ∈ q, Plain (s.filesOf w))
    (hat : s.ChunkAt .virtualMemory chunk fill) (hvirmem : s.virmemMeta[user]? ≠ none)
    (hrow : readRow s.disk .virtualMemory (s.virmemMeta.getD user []) = .ok (rowOf files)) (hplain : Plain files)
    (htotal : (total files : Int) ≤ s.capacity)
    (hspace : fill + s.rowsOf (shed s.bytes (s.capacity - total files) q) ≤ chunkSize) (commFd : Int) :
    ∃ t, Restored s t user chunk fill (shed s.bytes (s.capacity - total files) q) files ∧
      ∀ fuel, q.length < fuel → LRUCache.loadUserFromDisk fuel s .virtualMemory user commFd = .ok t := by
  have hstart := h.restoring (h.tidy.absent_of_virmem hvirmem) hat hplains (s.capacity - total files)
  have hneed : (total (∅ : Map Str) : Int) + bytesOf files.toList + (s.capacity - total files) ≤ s.capacity := by
    rw [← total_eq_bytesOf, total_empty]
    omega
  obtain ⟨t, q', hrestoring, hrun⟩ := hstart.restore hspace (by omega) hneed commFd
  rw [foldl_addFile_toList] at hrestoring
  refine ⟨t, hrestoring.restored rfl, fun fuel hfuel => ?_⟩
  have hread : readRow (s.clearMetadata .virtualMemory user).disk .virtualMemory
      ((s.metaOf .virtualMemory).getD user []) = .ok (rowOf files) := hrow
  rw [LRUCache.loadUserFromDisk, loadUserFromDiskWith]
  simp only [hread, Run.ok_bind]
  rw [restoreUserWith, pairs_rowOf hplain.names hplain.values, hrun fuel hfuel]

/-- The last read of `get_helper` needs nothing of the list but the pointers of the user's own node. -/
theorem Halfway.lookUp (h : s.Halfway user q files) (hne : files ≠ ∅) (filename : Str) (commFd : Int) :
    ∃ L r, s.tablets[user]? = some r ∧ s.lookUp user filename commFd = .ok (files[filename]?,
      if files[filename]? = none then (s.relink L).servermsg "-ERR No such file\r\n" commFd else s.relink L) := by
  rcases h.building.held with ⟨_, hempty⟩ | ⟨i, hresident, hvalue⟩
  · exact absurd hempty hne
  · obtain ⟨others, _, hforward, _⟩ := h.waits.exists_others
    rw [hresident, Option.toList_some] at hforward
    obtain ⟨p, hprev⟩ := Option.ne_none_iff_exists'.mp (h.linked _ hresident)
    have hnext : s.links.next (.node i) = some .tail := by
      have hlast := hforward.path.last_eq
      rwa [List.getLastD_concat] at hlast
    have hbypass : (s.relink (s.links.bypass p .tail)).links.prev .tail = some p := by
      rw [links_relink, Links.bypass_prev, Function.update_self]
    have hlook := lookUp_eq hresident (detach_eq hprev hnext) (moveToTail_eq hbypass (h.waits.tidy.ne_tail hresident))
      filename commFd
    rw [hvalue] at hlook
    exact ⟨_, .node i, hresident, hlook⟩

/-- The user is resident with exactly these files. `gone` have left for the current chunk file, the user is not among
them, and no other contents have changed. -/
structure Reloaded (s s' : LRUCache) (user : Str) (chunk : Int) (gone : List Str) (files : Map Str) : Prop where
  resident : ∃ r, s'.tablets[user]? = some r ∧ (s'.heap r).value = files
  others : ∀ w, w ≠ user → s.OnDisk w → s'.filesOf w = s.filesOf w
  written : s'.syscalls =
    s.syscalls ++ gone.map fun w => FsAction.append .virtualMemory (chunkName chunk) (rowOf (s.filesOf w))
  spared : user ∉ gone
  memory : s'.memoryUsed = s'.residentTotal
  limit : s'.memoryUsed ≤ s'.capacity

theorem Restored.reloaded (h : Restored s t user chunk fill gone files) (huser : user ∉ gone) (hne : files ≠ ∅)
    (L : Links Ref) (sent : List (Int × Str)) :
    Reloaded s { t.relink L with sent := sent } user chunk gone files := by
  obtain ⟨q, hhalfway⟩ := h.halfway
  refine ⟨?_, fun w hw hdisk => ?_, h.spilled.syscalls, huser, hhalfway.waits.memory, hhalfway.waits.limit⟩
  · rcases hhalfway.building.held with ⟨_, hempty⟩ | ⟨i, hresident, hvalue⟩
    · exact absurd hempty hne
    · exact ⟨_, hresident, hvalue⟩
  · have hfiles : ({ t.relink L with sent := sent } : LRUCache).filesOf w = t.filesOf w :=
      filesOf_congr rfl (fun _ => rfl) rfl rfl
    rw [hfiles, (h.spilled.contents w hw hdisk).2]

/-- **A reload under memory pressure.** The list visits exactly the residents, the byte counter is exact, the current
chunk is as long as its counter says and has room for the rows of the users that must leave for the files to fit. Then
`get_helper` finds what the row on disk says, and only those users leave. -/
theorem getHelper_reloads (h : s.Waits q) (hplains : ∀ w ∈ q, Plain (s.filesOf w))
    (hat : s.ChunkAt .virtualMemory chunk fill) (hvirmem : s.virmemMeta[user]? ≠ none)
    (hrow : readRow s.disk .virtualMemory (s.virmemMeta.getD user []) = .ok (formatNode files).1) (hplain : Plain files)
    (hne : files ≠ ∅) (htotal : (total files : Int) ≤ s.capacity)
    (hspace : fill + s.rowsOf (shed s.bytes (s.capacity - total files) q) ≤ chunkSize) (filename : Str) (commFd : Int) :
    ∃ s', (∀ fuel, q.length < fuel → s.getHelper fuel user filename commFd = .ok (files[filename]?, s')) ∧
      s'.sent = s.sent ++ (if files[filename]? = none then [(commFd, "-ERR No such file\r\n".toList)] else []) ∧
      Reloaded s s' user chunk (shed s.bytes (s.capacity - total files) q) files := by
  obtain ⟨t, hrestored, hload⟩ := h.loadUserFromDisk hplains hat hvirmem hrow hplain htotal hspace commFd
  obtain ⟨q', hhalfway⟩ := hrestored.halfway
  obtain ⟨L, r, hresident, hlook⟩ := hhalfway.lookUp hne filename commFd
  have hsent : t.sent = s.sent := hrestored.spilled.sent
  have habsent := h.tidy.absent_of_virmem hvirmem
  have huser : user ∉ shed s.bytes (s.capacity - total files) q := by
    intro hmem
    have hq := shed_append_kept s.bytes (s.capacity - total files) q
    obtain ⟨r', hr'⟩ := h.resident_iff.mp (hq ▸ List.mem_append_left _ hmem)
    exact Option.some_ne_none r' (hr'.symm.trans habsent)
  have hget : ∀ fuel, q.length < fuel → s.getHelper fuel user filename commFd = t.lookUp user filename commFd := by
    intro fuel hfuel
    have hfetched : s.fetched fuel user commFd = .ok t := by
      rw [fetched, ExtTreeMap.contains_eq_isSome_getElem?, if_pos (Option.isSome_iff_ne_none.mpr hvirmem), hload fuel hfuel]
    rw [getHelper_of_known fun hboth => hvirmem hboth.2, hfetched, Run.ok_bind]
  refine ⟨_, fun fuel hfuel => (hget fuel hfuel).trans hlook, ?_, ?_⟩
  · split
    · exact congrArg (· ++ _) hsent
    · exact hsent.trans (List.append_nil _).symm
  · split
    · exact hrestored.reloaded huser hne L _
    · exact hrestored.reloaded huser hne L _

/-- One resident with six bytes, and a user with five bytes in virtual memory; together they are one byte too many. -/
def crowded : LRUCache :=
  { lone "abcdef".toList with
    chunkInfo := fun _ => [0, 8]
    virmemMeta := (∅ : Map Records).insert "v".toList [[0, 0, 8]]
    disk := Disk.empty.setFiles .virtualMemory ((∅ : Map Str).insert "chunk0".toList "g,ddddd,".toList) }

theorem crowded_waits : crowded.Waits ["u".toList] := by
  have htablets : ∀ (u : Str) r, crowded.tablets[u]? = some r → u = "u".toList ∧ r = .node 0 := by
    intro u r hr
    change ((∅ : Map Ref).insert "u".toList (.node 0))[u]? = some r at hr
    rw [SortedMap.getElem?_insert_eq, ExtTreeMap.getElem?_empty] at hr
    split at hr
    · next hu => exact ⟨hu.symm, (Option.some.inj hr).symm⟩
    · cases hr
  refine ⟨⟨[.node 0], ⟨⟨?_, ?_, ?_⟩, ⟨by decide, ⟨rfl, rfl⟩, rfl⟩, fun r => ?_⟩, rfl⟩, by decide +kernel, by decide, by decide⟩
  · intro u r hr
    obtain ⟨_, rfl⟩ := htablets u r hr
    exact ⟨0, Nat.zero_lt_one, rfl⟩
  · intro u r hr
    obtain ⟨rfl, rfl⟩ := htablets u r hr
    rfl
  · intro u r hr
    obtain ⟨rfl, rfl⟩ := htablets u r hr
    decide +kernel
  · rw [List.mem_singleton]
    constructor
    · rintro rfl
      decide +kernel
    · exact fun hr => (htablets _ _ hr).2

theorem plain_singleton (hname : ',' ∉ filename) (hvalue : ',' ∉ value) : Plain ((∅ : Map Str).insert filename value) :=
  plain_empty.insert hname hvalue

theorem getHelper_reloads_crowded : ∃ s' : LRUCache,
    (∀ fuel, 1 < fuel → crowded.getHelper fuel "v".toList "g".toList 3 = .ok (some "ddddd".toList, s')) ∧
      Reloaded crowded s' "v".toList 0 ["u".toList] ((∅ : Map Str).insert "g".toList "ddddd".toList) := by
  have hplains : ∀ w ∈ ["u".toList], Plain (crowded.filesOf w) := by
    intro w hw
    rw [List.mem_singleton] at hw
    have hfiles : crowded.filesOf w = (∅ : Map Str).insert "f".toList "abcdef".toList := by
      subst hw
      exact filesOf_of_resident (show crowded.tablets["u".toList]? = some (.node 0) by decide +kernel)
    rw [hfiles]
    exact plain_singleton (by decide) (by decide)
  have hat : crowded.ChunkAt .virtualMemory 0 8 := ⟨rfl, by decide +kernel⟩
  have hvirmem : crowded.virmemMeta["v".toList]? ≠ none := by decide +kernel
  have hrow : readRow crowded.disk .virtualMemory (crowded.virmemMeta.getD "v".toList []) =
      .ok (formatNode ((∅ : Map Str).insert "g".toList "ddddd".toList)).1 := by decide +kernel
  obtain ⟨s', hget, _, hreloaded⟩ := getHelper_reloads crowded_waits hplains hat hvirmem hrow
    (plain_singleton (by decide) (by decide)) insert_ne_empty (by decide +kernel) (by decide +kernel) "g".toList 3
  have hgone : shed crowded.bytes (crowded.capacity - total ((∅ : Map Str).insert "g".toList "ddddd".toList)) ["u".toList] =
      ["u".toList] := by decide +kernel
  have hvalue : ((∅ : Map Str).insert "g".toList "ddddd".toList)["g".toList]? = some "ddddd".toList :=
    ExtTreeMap.getElem?_insert_self
  rw [hgone] at hreloaded
  rw [hvalue] at hget
  exact ⟨s', hget, hreloaded⟩

end PennCloud.LRUCache
