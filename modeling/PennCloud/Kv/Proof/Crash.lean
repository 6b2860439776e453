import PennCloud.Kv.Proof.Snapshot

/-!
# Crashes during a checkpoint

A checkpoint removes the previous one and the log before it writes anything. From then on the disk holds what has been written so
far: the users in memory once `cp_meta` is there, and the others once `virmem_meta` is there and the chunks with their rows have
been copied.
-/

namespace PennCloud

namespace LRUCache

open Std

variable {s s' t : LRUCache} {user : Str} {d : Disk} {m k : Nat}

/-- The actions of a checkpoint that ran from `s` to `s'`. -/
def actionsOf (s s' : LRUCache) : List FsAction := s'.syscalls.drop s.syscalls.length

/-- The disk after the first `k` of them. -/
def crash (s s' : LRUCache) (k : Nat) : Disk := ((actionsOf s s').take k).foldl Disk.apply s.disk

/-- The state with the virtual memory that a start would copy from the checkpoint. -/
def withCopy (s : LRUCache) (d : Disk) : LRUCache :=
  { s with disk := d.setFiles .virtualMemory (d.files .cpVirtualMemory) }

/-- The files of all users can be found on a disk by the metadata that is there. -/
structure KeptBy (s : LRUCache) (d : Disk) : Prop where
  residents : ∀ u : Str, u ∈ s.tablets → "cp_meta".toList ∈ d.files .metadata
  evicted : ∀ u : Str, u ∈ s.virmemMeta →
    s.filesOf u = if "virmem_meta".toList ∈ d.files .metadata then (s.withCopy d).filesOf u else ∅

/-! ### The disk at a crash -/

theorem rowAppends_eq (type : ChunkType) (writes : List (Str × Str)) : rowAppends type writes =
    (writes.map fun write => (chunkName 0, write.2)).map fun file => .append type.dir file.1 file.2 := by
  rw [List.map_map]
  rfl

/-- From the removal of the log on there is no log, and the disk holds a part of the checkpoint. -/
theorem RowsWritten.crash (ht : RowsWritten s t) (hs' : s' = (closing s t).foldl act t) (hk : (clearance s.disk).length ≤ k) :
    (crash s s' k).log = none ∧ Carries t (k - (clearance s.disk).length - s.residentRows.length) (crash s s' k) := by
  have hactions : actionsOf s s' = clearance s.disk ++ (rowAppends .checkpointing s.residentRows ++ closing s t) := by
    rw [actionsOf, hs', foldl_act, ht.syscalls, List.append_assoc, List.append_assoc, List.drop_left]
  have hlength : (rowAppends .checkpointing s.residentRows).length = s.residentRows.length := List.length_map _
  have htake : ((actionsOf s s').take k) = clearance s.disk ++ ((rowAppends .checkpointing s.residentRows).take
      (k - (clearance s.disk).length) ++ (closing s t).take (k - (clearance s.disk).length - s.residentRows.length)) := by
    rw [hactions, List.take_append, List.take_of_length_le hk, List.take_append, hlength]
  rw [LRUCache.crash, htake, List.foldl_append, foldl_clearance, List.foldl_append]
  generalize k - (clearance s.disk).length = n
  by_cases hrows : n < s.residentRows.length
  · rw [Nat.sub_eq_zero_of_le hrows.le, List.take_zero, List.foldl_nil, rowAppends_eq, ← List.map_take, Disk.foldl_append]
    refine ⟨rfl, ?_, fun hpos => absurd hpos (Nat.lt_irrefl 0)⟩
    rw [Disk.files_setFiles_of_ne (by decide)]
    rfl
  · rw [List.take_of_length_le (by omega), ← ht.disk]
    refine ⟨?_, ht.carries _⟩
    have hlog : t.disk.log = none := by
      rw [ht.disk, rowAppends_eq, Disk.foldl_append]
      rfl
    rw [ht.foldl_closing]
    exact hlog

/-- Up to the removal of the log the log and the virtual memory are as they were. -/
theorem RowsWritten.crash_between (ht : RowsWritten s t) (hs' : s' = (closing s t).foldl act t) (hk : k < (clearance s.disk).length) :
    (LRUCache.crash s s' k).log = s.disk.log ∧
      (LRUCache.crash s s' k).files .virtualMemory = s.disk.files .virtualMemory := by
  let front := removals (s.disk.files .cpVirtualMemory) .cpVirtualMemory ++ (removals (s.disk.files .checkpointing) .checkpointing ++
    removals (s.disk.files .metadata) .metadata)
  have hclearance : clearance s.disk = front ++ [.removeLog] := by
    simp only [clearance, front, List.append_assoc]
  have htake : (actionsOf s s').take k = front.take k := by
    rw [hclearance, List.length_append, List.length_singleton] at hk
    rw [actionsOf, hs', foldl_act, ht.syscalls, List.append_assoc, List.append_assoc, List.drop_left, hclearance,
      List.append_assoc, List.take_append_of_le_length (by omega)]
  have hremoves {dir : Dir} {files : Map Str} {a : FsAction} (hdir : dir ≠ .virtualMemory) (ha : a ∈ removals files dir) :
      ∃ dir name, a = .remove dir name ∧ dir ≠ .virtualMemory := by
    obtain ⟨file, _, rfl⟩ := List.mem_map.mp ha
    exact ⟨dir, file.1, rfl, hdir⟩
  have hfront : ∀ a ∈ front.take k, ∃ dir name, a = .remove dir name ∧ dir ≠ .virtualMemory := by
    intro a ha
    rcases List.mem_append.mp (List.mem_of_mem_take ha) with ha | ha
    · exact hremoves (by decide) ha
    · exact (List.mem_append.mp ha).elim (hremoves (by decide)) (hremoves (by decide))
  rw [LRUCache.crash, htake]
  refine List.foldlRecOn _ _ (motive := fun d : Disk => d.log = s.disk.log ∧
    d.files .virtualMemory = s.disk.files .virtualMemory) ⟨rfl, rfl⟩ fun d hd a ha => ?_
  obtain ⟨dir, name, rfl, hdir⟩ := hfront a ha
  exact ⟨hd.1, (Disk.files_setFiles_of_ne hdir.symm).trans hd.2⟩

theorem Carries.mem_metadata (h : Carries t m d) :
    ("cp_meta".toList ∈ d.files .metadata ↔ 0 < m) ∧ ("virmem_meta".toList ∈ d.files .metadata ↔ 1 < m) := by
  have hcp : "cp_meta".toList ≠ "virmem_meta".toList ∧ "cp_meta".toList ≠ "chunk_info".toList ∧
      "cp_meta".toList ≠ "user_size".toList := by decide
  have hvm : "virmem_meta".toList ≠ "chunk_info".toList ∧ "virmem_meta".toList ≠ "user_size".toList := by decide
  simp only [h.metadata, metadataFiles]
  generalize "cp_meta".toList = nCp at *
  generalize "virmem_meta".toList = nVm at *
  generalize "chunk_info".toList = nInfo at *
  generalize "user_size".toList = nSizes at *
  rcases m with _ | _ | _ | _ | m
  all_goals simp [hcp, hvm, Ne.symm]

/-! ### Contents -/

theorem filesOf_of_residentFiles {files : Map Str} (hfiles : s.residentFiles user = some files) : s.filesOf user = files := by
  obtain ⟨r, hr, rfl⟩ := Option.map_eq_some_iff.mp hfiles
  exact filesOf_of_resident hr

theorem filesOf_of_nobody (hfiles : s.residentFiles user = none) : s.filesOf user = filesOfRow (s.rowOnDisk user) :=
  filesOf_of_absent (residentFiles_eq_none.mp hfiles)

/-- Where a row is depends on the records and on the virtual memory. -/
theorem rowOnDisk_of_virtualMemory (hvirmem : s'.virmemMeta = s.virmemMeta)
    (hfiles : s'.disk.files .virtualMemory = s.disk.files .virtualMemory) : s'.rowOnDisk user = s.rowOnDisk user := by
  rw [rowOnDisk, rowOnDisk, readRow, readRow, hvirmem, ChunkType.dir, hfiles]

/-- A new process has the contents of the state exactly when the disk kept them. -/
theorem Restorable.filesOf_eq_iff (h : s.Restorable) (hd : Carries t m d)
    (hheld : s'.residentFiles = if 0 < m then s.residentFiles else fun _ => none)
    (hvirmem : s'.virmemMeta = if 1 < m then s.virmemMeta else ∅)
    (hdisk : s'.disk = d.setFiles .virtualMemory (d.files .cpVirtualMemory)) : s'.filesOf = s.filesOf ↔ s.KeptBy d := by
  obtain ⟨hcp, hvm⟩ := hd.mem_metadata
  have hevicted {u : Str} (hu : s.residentFiles u = none) :
      s'.filesOf u = if "virmem_meta".toList ∈ d.files .metadata then (s.withCopy d).filesOf u else ∅ := by
    have hnobody : s'.residentFiles u = none := by
      rw [hheld]
      split
      · exact hu
      · rfl
    have hcopied : (s.withCopy d).residentFiles u = none := hu
    rw [filesOf_of_nobody hnobody, filesOf_of_nobody hcopied]
    split
    · next hmem =>
        rw [if_pos (hvm.mp hmem)] at hvirmem
        exact congrArg filesOfRow (rowOnDisk_of_virtualMemory hvirmem (congrArg (·.files .virtualMemory) hdisk))
    · next hmem =>
        rw [if_neg (fun hm => hmem (hvm.mpr hm))] at hvirmem
        rw [rowOnDisk_of_none (by rw [hvirmem]; exact ExtTreeMap.getElem?_empty), filesOfRow_nil]
  have habsent {u : Str} (hu : u ∈ s.virmemMeta) : s.residentFiles u = none := by
    cases hfiles : s.residentFiles u with
    | none => rfl
    | some files =>
        obtain ⟨r, hr, _⟩ := Option.map_eq_some_iff.mp hfiles
        rw [ExtTreeMap.mem_iff_isSome_getElem?, h.disjoint u r hr] at hu
        exact absurd hu (by simp)
  constructor
  · intro hsame
    refine ⟨fun u hu => ?_, fun u hu => ?_⟩
    · obtain ⟨files, hfiles⟩ := mem_tablets_iff.mp hu
      obtain ⟨r, hr, rfl⟩ := Option.map_eq_some_iff.mp hfiles
      rw [hcp]
      by_contra hm
      have hnobody : s'.residentFiles u = none := by rw [hheld, if_neg hm]
      have hnone : s'.virmemMeta[u]? = none := by
        rw [hvirmem, if_neg (by omega)]
        exact ExtTreeMap.getElem?_empty
      have hempty := congrFun hsame u
      rw [filesOf_of_nobody hnobody, rowOnDisk_of_none hnone, filesOfRow_nil, filesOf_of_resident hr] at hempty
      exact (h.resident u r hr).2 hempty.symm
    · rw [← hsame]
      exact hevicted (habsent hu)
  · intro hkept
    funext u
    cases hfiles : s.residentFiles u with
    | some files =>
        have hm := hcp.mp (hkept.residents u (mem_tablets_iff.mpr ⟨files, hfiles⟩))
        have hheld' : s'.residentFiles u = some files := by rw [hheld, if_pos hm, hfiles]
        rw [filesOf_of_residentFiles hfiles, filesOf_of_residentFiles hheld']
    | none =>
        rw [hevicted hfiles]
        by_cases hu : u ∈ s.virmemMeta
        · exact (hkept.evicted u hu).symm
        · have hnone : s.virmemMeta[u]? = none := ExtTreeMap.getElem?_eq_none hu
          have hcopied : (s.withCopy d).residentFiles u = none := hfiles
          rw [filesOf_of_nobody hfiles, filesOf_of_nobody hcopied, rowOnDisk_of_none hnone,
            rowOnDisk_of_none (s := s.withCopy d) hnone, filesOfRow_nil, ite_self]

/-- Once every action is done the disk has kept everything. -/
theorem RowsWritten.keptBy (ht : RowsWritten s t) (hs' : s' = (closing s t).foldl act t) (hk : (actionsOf s s').length ≤ k) :
    (clearance s.disk).length ≤ k ∧ s.KeptBy (LRUCache.crash s s' k) := by
  have hlength : (actionsOf s s').length = (clearance s.disk).length + s.residentRows.length +
      (4 + (s.disk.files .virtualMemory).toList.length) := by
    rw [actionsOf, hs', foldl_act, ht.syscalls, List.append_assoc, List.append_assoc, List.drop_left, List.length_append,
      List.length_append, rowAppends, List.length_map, closing, List.length_append, copies, List.length_map, Nat.add_assoc]
    rfl
  have hclear : (clearance s.disk).length ≤ k := by omega
  have hcarries := (ht.crash hs' hclear).2
  have hdisk : LRUCache.crash s s' k = (closing s t).foldl Disk.apply t.disk := by
    have hbare := foldl_clearance s.disk
    rw [LRUCache.crash, List.take_of_length_le hk, actionsOf, hs', foldl_act, ht.syscalls, List.append_assoc, List.append_assoc,
      List.drop_left, List.foldl_append, List.foldl_append, hbare, ← ht.disk]
  have hcopied : (LRUCache.crash s s' k).files .cpVirtualMemory = s.disk.files .virtualMemory := by
    have hclosing := ht.foldl_closing (closing s t).length
    rw [List.take_length] at hclosing
    rw [hdisk, hclosing, Disk.files_setFiles, copied_all]
    have hfour : t.metadataActions.length = 4 := rfl
    rw [closing, List.length_append, copies, List.length_map, hfour]
    omega
  refine ⟨hclear, fun u _ => hcarries.mem_metadata.1.mpr (by omega), fun u _ => ?_⟩
  rw [if_pos (hcarries.mem_metadata.2.mpr (by omega))]
  have hrow : (s.withCopy (LRUCache.crash s s' k)).rowOnDisk u = s.rowOnDisk u :=
    rowOnDisk_of_virtualMemory rfl (Disk.files_setFiles.trans hcopied)
  rw [filesOf, filesOf, hrow]
  rfl

end LRUCache

namespace Chunkserver

open LRUCache Std

variable {s s' : LRUCache} {isPrimary : Bool} {secondaryFd : Int} {fuel k : Nat}

/-- A start without `-n` on a disk ends with these contents. -/
def Recovers (fuel : Nat) (capacity : Int) (isPrimary : Bool) (secondaryFd : Int) (disk : Disk) (store : Store) : Prop :=
  ∃ s, (boot capacity isPrimary secondaryFd disk).initialization fuel false = .ok s ∧ s.lru.filesOf = store

/-- Without a log a start ends where the checkpoint was loaded. -/
theorem initialization_without_log {capacity : Int} {disk : Disk} {lru : LRUCache}
    (hload : (init capacity isPrimary (fun _ => []) disk).loadCheckpointing fuel = .ok lru) (hlog : lru.disk.log = none) :
    (boot capacity isPrimary secondaryFd disk).initialization fuel false =
      .ok { boot capacity isPrimary secondaryFd disk with lru := lru } := by
  have hstart : (boot capacity isPrimary secondaryFd disk).lru.loadCheckpointing fuel = .ok lru := hload
  rw [initialization, if_neg Bool.false_ne_true, hstart, Run.ok_bind, replayLog, hlog]
  rfl

/-- From the removal of the log on, a start has the contents of the state exactly when the disk kept them. -/
theorem recovers_iff_keptBy (h : s.Restorable) (hrun : s.checkpointing = .ok s') (hk : (clearance s.disk).length ≤ k) :
    Recovers (fuel + 1) s.capacity isPrimary secondaryFd (crash s s' k) s.filesOf ↔ s.KeptBy (crash s s' k) := by
  obtain ⟨t, ht, hrun'⟩ := h.checkpointing_eq (h.indexable hrun)
  obtain ⟨hlog, hcarries⟩ := ht.crash (Except.ok.inj (hrun.symm.trans hrun')) hk
  obtain ⟨u, hload, hheld, hvirmem, _, _, _, hdisk⟩ := h.exists_recalled ht hcarries fuel isPrimary
  have hlog' : u.disk.log = none := by
    rw [hdisk]
    exact hlog
  have hstart : (boot s.capacity isPrimary secondaryFd (crash s s' k)).initialization (fuel + 1) false =
      .ok { boot s.capacity isPrimary secondaryFd (crash s s' k) with lru := u } := initialization_without_log hload hlog'
  have hiff := h.filesOf_eq_iff hcarries hheld hvirmem hdisk
  constructor
  · rintro ⟨u', hstart', hsame⟩
    obtain rfl := Except.ok.inj (hstart.symm.trans hstart')
    exact hiff.mp hsame
  · exact fun hkept => ⟨_, hstart, hiff.mpr hkept⟩

/-- A crash before the first action leaves what was there, and one between the removals the log and the virtual memory. One behind
the removal of the log leaves the contents of the state exactly as far as the checkpoint has been written, and all of them in the
end. -/
theorem recovers_crash (h : s.Restorable) (hrun : s.checkpointing = .ok s')
    (fuel : Nat) (hbefore : Recovers (fuel + 1) s.capacity isPrimary secondaryFd s.disk s.filesOf) :
    Recovers (fuel + 1) s.capacity isPrimary secondaryFd (crash s s' 0) s.filesOf ∧
      (∀ k, k < (clearance s.disk).length → (crash s s' k).log = s.disk.log ∧
        (crash s s' k).files .virtualMemory = s.disk.files .virtualMemory) ∧
      (∀ k, (clearance s.disk).length ≤ k →
        (Recovers (fuel + 1) s.capacity isPrimary secondaryFd (crash s s' k) s.filesOf ↔ s.KeptBy (crash s s' k))) ∧
      ∀ k, (actionsOf s s').length ≤ k → Recovers (fuel + 1) s.capacity isPrimary secondaryFd (crash s s' k) s.filesOf := by
  obtain ⟨t, ht, hrun'⟩ := h.checkpointing_eq (h.indexable hrun)
  have hs' := Except.ok.inj (hrun.symm.trans hrun')
  refine ⟨hbefore, fun k hk => ht.crash_between hs' hk, fun k hk => recovers_iff_keptBy h hrun hk, fun k hk => ?_⟩
  obtain ⟨hclear, hkept⟩ := ht.keptBy hs' hk
  exact (recovers_iff_keptBy h hrun hclear).mpr hkept

/-! ### One message, one checkpoint -/

/-- The only user of a node. -/
structure Sole (s : LRUCache) (user : Str) (files : Map Str) : Prop where
  tablets : s.tablets = (∅ : Map Ref).insert user (.node 0)
  value : (s.heap (.node 0)).value = files
  virmem : s.virmemMeta = ∅

instance (s : LRUCache) (user : Str) (files : Map Str) : Decidable (Sole s user files) :=
  decidable_of_iff (s.tablets = (∅ : Map Ref).insert user (.node 0) ∧ (s.heap (.node 0)).value = files ∧ s.virmemMeta = ∅)
    ⟨fun ⟨htablets, hvalue, hvirmem⟩ => ⟨htablets, hvalue, hvirmem⟩, fun h => ⟨h.tablets, h.value, h.virmem⟩⟩

theorem Sole.filesOf {user : Str} {files : Map Str} (h : Sole s user files) :
    s.filesOf = Function.update (fun _ => ∅) user files := by
  funext u
  have hget := SortedMap.getElem?_insert_eq (∅ : Map Ref) user u (.node 0)
  rw [← h.tablets] at hget
  by_cases hu : user = u
  · subst hu
    rw [if_pos rfl] at hget
    rw [filesOf_of_resident hget, h.value, Function.update_self]
  · have hnone : s.virmemMeta[u]? = none := by
      rw [h.virmem]
      exact ExtTreeMap.getElem?_empty
    rw [if_neg hu, ExtTreeMap.getElem?_empty] at hget
    rw [filesOf_of_absent hget, rowOnDisk_of_none hnone, filesOfRow_nil, Function.update_of_ne (Ne.symm hu)]

theorem Sole.restorable {user : Str} {files : Map Str} {n : Int} (h : Sole s user files) (hkey : (s.heap (.node 0)).key = user)
    (hname : Unseparated user) (hplain : Plain files) (hne : files ≠ ∅) (hroom : (total files : Int) ≤ s.capacity)
    (hsmall : s.capacity ≤ intMax) (hrow : (rowOf files).length ≤ chunkSize)
    (hsizes : s.userSize = (∅ : Map Int).insert user n) (hn : IsInt n) (hinfo : ∀ type, s.chunkInfo type = [0, 0]) :
    s.Restorable := by
  have hweigh (w : Map Str → Nat) : s.weigh w s.tablets = w files := by
    rw [weigh, h.tablets, SortedMap.sum_insert_of_none ExtTreeMap.getElem?_empty, SortedMap.sum_empty, h.value]
    rfl
  have honly {u : Str} {r : Ref} (hu : s.tablets[u]? = some r) : u = user ∧ r = .node 0 := by
    rw [h.tablets] at hu
    exact eq_of_singleton hu
  have hnobody (u : Str) : s.virmemMeta[u]? = none := by
    rw [h.virmem]
    exact ExtTreeMap.getElem?_empty
  refine ⟨fun u r hu => ?_, fun u _ _ => hnobody u, (congrArg Nat.cast (hweigh total)).trans_le hroom, hsmall, fun u r hu => ?_,
    (hweigh _).trans_le hrow, fun u records hu => ?_, fun type => ?_, fun u k hu => ?_, fun u hu => ?_⟩
  · obtain ⟨rfl, rfl⟩ := honly hu
    exact hkey
  · obtain ⟨rfl, rfl⟩ := honly hu
    rw [h.value]
    exact ⟨hplain, hne⟩
  · exact absurd ((hnobody u).symm.trans hu) (Option.some_ne_none _).symm
  · rw [hinfo]
    exact ⟨Nat.le_refl 2, by decide⟩
  · rw [hsizes] at hu
    obtain ⟨rfl, rfl⟩ := eq_of_singleton hu
    exact hn
  · have heq : u = user := by
      simp only [ExtTreeMap.mem_iff_isSome_getElem?, Option.isSome_iff_exists, hnobody, hsizes] at hu
      rcases hu with ⟨_, hu⟩ | ⟨_, hu⟩ | ⟨_, hu⟩
      · exact (honly hu).1
      · exact absurd hu.symm (Option.some_ne_none _)
      · exact (eq_of_singleton hu).1
    exact heq ▸ hname

/-- A node is started with `-n`, obeys one message and writes a checkpoint. A start on the disk before the checkpoint, and one on
the disk after `k` of its actions. -/
def crashRun (message : String) (k : Nat) : Except Fault (LRUCache × LRUCache × Chunkserver × Chunkserver) := do
  let s₀ ← (boot 10 true 5 Disk.empty).initialization 10 true
  let s ← s₀.worker 10 7 message.toList
  let lru ← s.lru.checkpointing
  let t ← (boot 10 true 5 s.lru.disk).initialization 10 false
  let u ← (boot 10 true 5 (crash s.lru lru k)).initialization 10 false
  .ok (s.lru, lru, t, u)

theorem crashRun_ok {message : String} {lru : LRUCache} {t u : Chunkserver} (hrun : crashRun message k = .ok (s, lru, t, u)) :
    ∃ s₀ s' : Chunkserver, (boot 10 true 5 Disk.empty).initialization 10 true = .ok s₀ ∧
      s₀.worker 10 7 message.toList = .ok s' ∧ s'.lru = s ∧ s.checkpointing = .ok lru ∧
        (boot 10 true 5 s.disk).initialization 10 false = .ok t ∧
          (boot 10 true 5 (crash s lru k)).initialization 10 false = .ok u := by
  obtain ⟨s₀, hstart, hrun⟩ := Run.bind_eq_ok.mp hrun
  obtain ⟨s', hput, hrun⟩ := Run.bind_eq_ok.mp hrun
  obtain ⟨lru', hcheck, hrun⟩ := Run.bind_eq_ok.mp hrun
  obtain ⟨t', hbefore, hrun⟩ := Run.bind_eq_ok.mp hrun
  obtain ⟨u', hafter, hrun⟩ := Run.bind_eq_ok.mp hrun
  obtain ⟨rfl, rfl, rfl, rfl⟩ : s'.lru = s ∧ lru' = lru ∧ t' = t ∧ u' = u := by simpa using Except.ok.inj hrun
  exact ⟨s₀, s', hstart, hput, rfl, hcheck, hbefore, hafter⟩

/-- The first checkpoint of a node with one file. -/
theorem recovers_crash_first : ∃ (s lru : LRUCache) (t u : Chunkserver), crashRun "put u,f,abc\r\n" 1 = .ok (s, lru, t, u) ∧
    Recovers 10 s.capacity true 5 (crash s lru 0) s.filesOf ∧
      (∀ k, k < (clearance s.disk).length → (crash s lru k).log = s.disk.log ∧
        (crash s lru k).files .virtualMemory = s.disk.files .virtualMemory) ∧
      (∀ k, (clearance s.disk).length ≤ k →
        (Recovers 10 s.capacity true 5 (crash s lru k) s.filesOf ↔ s.KeptBy (crash s lru k))) ∧
      ∀ k, (actionsOf s lru).length ≤ k → Recovers 10 s.capacity true 5 (crash s lru k) s.filesOf := by
  have hends : (match crashRun "put u,f,abc\r\n" 1 with
      | .ok (s, _, t, _) => decide (Sole s "u".toList ((∅ : Map Str).insert "f".toList "abc\r\n".toList) ∧
          Sole t.lru "u".toList ((∅ : Map Str).insert "f".toList "abc\r\n".toList) ∧ (s.heap (.node 0)).key = "u".toList ∧
            s.userSize = (∅ : Map Int).insert "u".toList 5 ∧ s.chunkInfo .checkpointing = [0, 0] ∧
              s.chunkInfo .virtualMemory = [0, 0] ∧ s.capacity = 10)
      | .error _ => false) = true := by decide +kernel
  cases hrun : crashRun "put u,f,abc\r\n" 1 with
  | error fault => exact absurd hends (by rw [hrun]; exact Bool.false_ne_true)
  | ok result =>
      obtain ⟨s, lru, t, u⟩ := result
      rw [hrun] at hends
      obtain ⟨hs, ht, hkey, hsizes, hcp, hvm, hcapacity⟩ := of_decide_eq_true hends
      obtain ⟨_, _, _, _, _, hcheck, hbefore, _⟩ := crashRun_ok hrun
      have hrestorable : s.Restorable := hs.restorable hkey ⟨by decide, by decide, by decide, by decide⟩
        (plain_empty.insert (by decide) (by decide)) insert_ne_empty (by rw [hcapacity]; decide +kernel)
        (by rw [hcapacity]; decide) (by decide +kernel) hsizes (by decide) fun type => by cases type <;> assumption
      refine ⟨s, lru, t, u, rfl, recovers_crash hrestorable hcheck 9 ⟨t, ?_, ht.filesOf.trans hs.filesOf.symm⟩⟩
      rw [hcapacity]
      exact hbefore

/-- A new node stores the value of one message. A start recovers its contents before its first checkpoint, but not behind the first
`k` actions of the checkpoint. -/
def Loses (message : String) (k : Nat) (value : String) : Prop :=
  ∃ (s₀ s : Chunkserver) (lru : LRUCache), (boot 10 true 5 Disk.empty).initialization 10 true = .ok s₀ ∧
    s₀.worker 10 7 message.toList = .ok s ∧ s.lru.checkpointing = .ok lru ∧
      s.lru.filesOf "u".toList = (∅ : Map Str).insert "f".toList value.toList ∧
        Recovers 10 10 true 5 s.lru.disk s.lru.filesOf ∧ ¬ Recovers 10 10 true 5 (crash s.lru lru k) s.lru.filesOf

theorem loses_of_crashRun {message value : String} (hends : (match crashRun message k with
      | .ok (s, _, t, u) => decide (Sole s "u".toList ((∅ : Map Str).insert "f".toList value.toList) ∧
          Sole t.lru "u".toList ((∅ : Map Str).insert "f".toList value.toList) ∧
            u.lru.filesOf "u".toList ≠ (∅ : Map Str).insert "f".toList value.toList)
      | .error _ => false) = true) : Loses message k value := by
  cases hrun : crashRun message k with
  | error fault => exact absurd hends (by rw [hrun]; exact Bool.false_ne_true)
  | ok result =>
      obtain ⟨s, lru, t, u⟩ := result
      rw [hrun] at hends
      obtain ⟨hs, ht, hlost⟩ := of_decide_eq_true hends
      obtain ⟨s₀, s', hstart, hput, rfl, hcheck, hbefore, hafter⟩ := crashRun_ok hrun
      have hstored : s'.lru.filesOf "u".toList = (∅ : Map Str).insert "f".toList value.toList := by
        rw [hs.filesOf, Function.update_self]
      refine ⟨s₀, s', lru, hstart, hput, hcheck, hstored, ⟨t, hbefore, ht.filesOf.trans hs.filesOf.symm⟩, ?_⟩
      rintro ⟨u', hafter', hsame⟩
      obtain rfl := Except.ok.inj (hafter.symm.trans hafter')
      exact hlost ((congrFun hsame _).trans hstored)

/-! ### Between the removals -/

/-- The users that one of the states knows have the same files in both. -/
def sameFiles (s t : LRUCache) : Bool :=
  (s.tablets.keys ++ s.virmemMeta.keys ++ (t.tablets.keys ++ t.virmemMeta.keys)).all fun u => s.filesOf u = t.filesOf u

theorem filesOf_eq_of_sameFiles {t : LRUCache} (hsame : sameFiles s t = true) : s.filesOf = t.filesOf := by
  funext u
  by_cases hu : u ∈ s.tablets.keys ++ s.virmemMeta.keys ++ (t.tablets.keys ++ t.virmemMeta.keys)
  · exact of_decide_eq_true (List.all_eq_true.mp hsame u hu)
  · simp only [List.mem_append, not_or, ExtTreeMap.mem_keys] at hu
    obtain ⟨⟨hs, hs'⟩, ht, ht'⟩ := hu
    rw [filesOf_unknown ⟨ExtTreeMap.getElem?_eq_none hs, ExtTreeMap.getElem?_eq_none hs'⟩,
      filesOf_unknown ⟨ExtTreeMap.getElem?_eq_none ht, ExtTreeMap.getElem?_eq_none ht'⟩]

/-- A start on the disk leaves the user with other files. -/
def misses (disk : Disk) (user : Str) (files : Map Str) : Bool :=
  match (boot 10 true 5 disk).initialization 10 false with
  | .ok s => s.lru.filesOf user ≠ files
  | .error _ => true

theorem not_recovers_of_misses {disk : Disk} {user : Str} {store : Store} (hmisses : misses disk user (store user) = true) :
    ¬ Recovers 10 10 true 5 disk store := by
  rintro ⟨t, hstart, rfl⟩
  rw [misses, hstart] at hmisses
  exact of_decide_eq_true hmisses rfl

/-- A node evicts a user, writes a checkpoint, stores a file of a third user and writes another checkpoint. -/
def secondRun : Except Fault (LRUCache × LRUCache × Chunkserver) := do
  let s₀ ← (boot 10 true 5 Disk.empty).initialization 10 true
  let s₁ ← s₀.worker 10 7 "put u,f,abc\r\n".toList
  let s₂ ← s₁.worker 10 7 "put v,g,abcde\r\n".toList
  let lru ← s₂.lru.checkpointing
  let s ← ({ s₂ with lru := lru } : Chunkserver).worker 10 7 "put w,h,x\r\n".toList
  let lru' ← s.lru.checkpointing
  let t ← (boot 10 true 5 s.lru.disk).initialization 10 false
  .ok (s.lru, lru', t)

/-- A start recovers the contents before the second checkpoint, but not behind any of its removals in front of that of the log. -/
def LosesBetween : Prop :=
  ∃ (s lru : LRUCache) (t : Chunkserver), secondRun = .ok (s, lru, t) ∧
    s.filesOf "u".toList = (∅ : Map Str).insert "f".toList "abc\r\n".toList ∧ Recovers 10 10 true 5 s.disk s.filesOf ∧
      (clearance s.disk).length = 7 ∧ ∀ k, 0 < k → k < 7 → ¬ Recovers 10 10 true 5 (crash s lru k) s.filesOf

theorem losesBetween : LosesBetween := by
  have hends : (match secondRun with
      | .ok (s, lru, t) => decide ((clearance s.disk).length = 7 ∧ sameFiles t.lru s = true ∧
          s.filesOf "u".toList = (∅ : Map Str).insert "f".toList "abc\r\n".toList ∧
            ∀ k ∈ List.range' 1 6, misses (crash s lru k) "u".toList (s.filesOf "u".toList) = true)
      | .error _ => false) = true := by decide +kernel
  cases hrun : secondRun with
  | error fault => exact absurd hends (by rw [hrun]; exact Bool.false_ne_true)
  | ok result =>
      obtain ⟨s, lru, t⟩ := result
      rw [hrun] at hends
      obtain ⟨hlength, hsame, hstored, hmisses⟩ := of_decide_eq_true hends
      have hstart : (boot 10 true 5 s.disk).initialization 10 false = .ok t := by
        obtain ⟨s₀, _, hrest⟩ := Run.bind_eq_ok.mp hrun
        obtain ⟨s₁, _, hrest⟩ := Run.bind_eq_ok.mp hrest
        obtain ⟨s₂, _, hrest⟩ := Run.bind_eq_ok.mp hrest
        obtain ⟨lru₁, _, hrest⟩ := Run.bind_eq_ok.mp hrest
        obtain ⟨s₃, _, hrest⟩ := Run.bind_eq_ok.mp hrest
        obtain ⟨lru₂, _, hrest⟩ := Run.bind_eq_ok.mp hrest
        obtain ⟨u, hstart, hrest⟩ := Run.bind_eq_ok.mp hrest
        obtain ⟨rfl, rfl, rfl⟩ : s₃.lru = s ∧ lru₂ = lru ∧ u = t := by simpa using Except.ok.inj hrest
        exact hstart
      exact ⟨s, lru, t, hrun, hstored, ⟨t, hstart, filesOf_eq_of_sameFiles hsame⟩, hlength,
        fun k hpos hk => not_recovers_of_misses (hmisses k (List.mem_range'_1.mpr ⟨hpos, hk⟩))⟩

/-- Between the removal of the log and `cp_meta` the file is gone. A value with a comma does not even come back from a
checkpoint that was completed, and one removal is enough to lose a user who has been evicted. -/
theorem not_recovers_crash : Loses "put u,f,abc\r\n" 1 "abc\r\n" ∧ Loses "put u,f,a,b\r\n" 6 "a,b\r\n" ∧ LosesBetween :=
  ⟨loses_of_crashRun (by decide +kernel), loses_of_crashRun (by decide +kernel), losesBetween⟩

end Chunkserver

end PennCloud
