import PennCloud.Kv.Proof.Numbers
import PennCloud.Kv.Proof.Chunks

/-!
# What a checkpoint leaves on the disk

A checkpoint is one series of actions on the file system: it empties the directories of the previous checkpoint and
removes the log, appends the rows and then the four metadata files, and copies the virtual memory. Each part is
described by the files it leaves.
-/

namespace PennCloud

open Std

/-! ### Files -/

namespace Disk

variable {d : Disk} {dir other : Dir} {files files' : Map Str} {name value : Str}

@[simp]
theorem files_setFiles : (d.setFiles dir files).files dir = files := by
  rw [setFiles]
  exact Function.update_self ..

theorem files_setFiles_of_ne (hne : other ≠ dir) : (d.setFiles dir files).files other = d.files other := by
  rw [setFiles]
  exact Function.update_of_ne hne ..

@[simp]
theorem setFiles_setFiles : (d.setFiles dir files).setFiles dir files' = d.setFiles dir files' := by
  simp only [setFiles, Function.update_idem]

@[simp]
theorem setFiles_self : d.setFiles dir (d.files dir) = d := by
  simp only [setFiles, Function.update_eq_self]

theorem foldl_remove (l : List (Str × Str)) (d : Disk) :
    (l.map fun file => FsAction.remove dir file.1).foldl Disk.apply d =
      d.setFiles dir (l.foldl (fun files file => files.erase file.1) (d.files dir)) := by
  induction l generalizing d with
  | nil => exact setFiles_self.symm
  | cons file l ih =>
      rw [List.map_cons, List.foldl_cons, ih, List.foldl_cons, Disk.apply, setFiles_setFiles, files_setFiles]

theorem foldl_copy {src des : Dir} (hne : src ≠ des) (l : List (Str × Str)) (d : Disk)
    (hl : ∀ file ∈ l, (d.files src)[file.1]? = some file.2) :
    (l.map fun file => FsAction.copy src des file.1).foldl Disk.apply d =
      d.setFiles des (l.foldl (fun files file => files.insert file.1 file.2) (d.files des)) := by
  induction l generalizing d with
  | nil => exact setFiles_self.symm
  | cons file l ih =>
      have hcontent : d.content src file.1 = file.2 := by
        rw [Disk.content, ExtTreeMap.getD_eq_getD_getElem?, hl file List.mem_cons_self, Option.getD_some]
      rw [List.map_cons, List.foldl_cons, ih, List.foldl_cons, Disk.apply, setFiles_setFiles, files_setFiles, hcontent]
      intro file' hfile'
      rw [Disk.apply, files_setFiles_of_ne hne]
      exact hl file' (List.mem_cons_of_mem _ hfile')

theorem foldl_append (l : List (Str × Str)) (d : Disk) :
    (l.map fun file => FsAction.append dir file.1 file.2).foldl Disk.apply d =
      d.setFiles dir (l.foldl SortedMap.extend (d.files dir)) := by
  induction l generalizing d with
  | nil => exact setFiles_self.symm
  | cons file l ih =>
      rw [List.map_cons, List.foldl_cons, ih, List.foldl_cons, Disk.apply, setFiles_setFiles, files_setFiles]
      rfl

theorem content_append : (d.apply (.append dir name value)).content dir name = d.content dir name ++ value := by
  rw [Disk.apply, Disk.content, files_setFiles, ExtTreeMap.getD_eq_getD_getElem?,
    SortedMap.getElem?_insert_eq, if_pos rfl, Option.getD_some]

theorem content_append_of_ne {name' : Str} (hne : name ≠ name') :
    (d.apply (.append dir name value)).content dir name' = d.content dir name' := by
  rw [Disk.apply, Disk.content, files_setFiles, ExtTreeMap.getD_eq_getD_getElem?, SortedMap.getElem?_insert_eq,
    if_neg hne]
  exact ExtTreeMap.getD_eq_getD_getElem?.symm

theorem files_append_of_ne (hne : other ≠ dir) :
    (d.apply (.append dir name value)).files other = d.files other :=
  files_setFiles_of_ne hne

theorem content_of_empty (hfiles : d.files dir = ∅) : d.content dir name = [] := by
  rw [Disk.content, hfiles, ExtTreeMap.getD_eq_getD_getElem?, ExtTreeMap.getElem?_empty, Option.getD_none]

end Disk

namespace LRUCache

variable {s s' t : LRUCache} {dir : Dir}

/-! ### Directories -/

theorem foldl_act (actions : List FsAction) (s : LRUCache) :
    actions.foldl act s =
      { s with disk := actions.foldl Disk.apply s.disk, syscalls := s.syscalls ++ actions } := by
  induction actions generalizing s with
  | nil => rw [List.foldl_nil, List.foldl_nil, List.append_nil]
  | cons a actions ih =>
      rw [List.foldl_cons, ih, List.foldl_cons, act]
      dsimp only
      rw [List.append_assoc, List.singleton_append]

/-- The actions that empty a directory. -/
def removals (files : Map Str) (dir : Dir) : List FsAction := files.toList.map fun file => .remove dir file.1

/-- The actions that copy files from one directory to another. -/
def copies (files : Map Str) (src des : Dir) : List FsAction := files.toList.map fun file => .copy src des file.1

theorem foldl_removals {d : Disk} {files : Map Str} (hfiles : d.files dir = files) :
    (removals files dir).foldl Disk.apply d = d.setFiles dir ∅ := by
  rw [removals, Disk.foldl_remove, hfiles, SortedMap.foldl_erase_toList]

theorem clearDir_eq_foldl {files : Map Str} (hfiles : s.disk.files dir = files) :
    s.clearDir dir = (removals files dir).foldl act s := by
  rw [removals, List.foldl_map, clearDir, hfiles]

theorem copyDir_eq_foldl {src des : Dir} : s.copyDir src des = (copies (s.disk.files src) src des).foldl act s := by
  rw [copies, List.foldl_map, copyDir]

theorem clearDir_eq : s.clearDir dir =
    { s with
      disk := s.disk.setFiles dir ∅
      syscalls := s.syscalls ++ removals (s.disk.files dir) dir } := by
  rw [clearDir_eq_foldl rfl, foldl_act, foldl_removals rfl]

/-- Copying into an empty directory makes it the same as the other. -/
theorem copyDir_eq {src des : Dir} (hne : src ≠ des) (hempty : s.disk.files des = ∅) : s.copyDir src des =
    { s with
      disk := s.disk.setFiles des (s.disk.files src)
      syscalls := s.syscalls ++ copies (s.disk.files src) src des } := by
  rw [copyDir_eq_foldl, foldl_act, copies,
    Disk.foldl_copy hne _ _ fun file hfile => ExtTreeMap.mem_toList_iff_getElem?_eq_some.mp hfile, hempty,
    SortedMap.foldl_insert_toList]

/-! ### The parts of a checkpoint -/

/-- The actions that remove the previous checkpoint and the log. -/
def clearance (d : Disk) : List FsAction :=
  removals (d.files .cpVirtualMemory) .cpVirtualMemory ++ (removals (d.files .checkpointing) .checkpointing ++
    (removals (d.files .metadata) .metadata ++ [.removeLog]))

/-- A disk that has only the virtual memory. -/
def bareDisk (d : Disk) : Disk := Disk.empty.setFiles .virtualMemory (d.files .virtualMemory)

theorem foldl_clearance (d : Disk) : (clearance d).foldl Disk.apply d = bareDisk d := by
  rw [clearance, List.foldl_append, foldl_removals rfl, List.foldl_append,
    foldl_removals (Disk.files_setFiles_of_ne (by decide)), List.foldl_append,
    foldl_removals ((Disk.files_setFiles_of_ne (by decide)).trans (Disk.files_setFiles_of_ne (by decide)))]
  refine congrArg (fun files => (⟨files, none⟩ : Disk)) (funext fun dir => ?_)
  cases dir <;> rfl

theorem clearCheckpoint_eq : s.clearCheckpoint = (clearance s.disk).foldl act s := by
  rw [clearance, List.foldl_append, ← clearDir_eq_foldl rfl, List.foldl_append, ← clearDir_eq_foldl ?_,
    List.foldl_append, ← clearDir_eq_foldl ?_]
  · rfl
  · rw [clearDir_eq, clearDir_eq]
    rfl
  · rw [clearDir_eq]
    rfl

/-- The counters of the checkpoint chunks set back. -/
def restarted (s : LRUCache) : LRUCache :=
  { s with
    cpMeta := ∅
    chunkInfo := Function.update s.chunkInfo .checkpointing (((s.chunkInfo .checkpointing).set 0 0).set 1 0) }

theorem resetCheckpoint_ok (hrun : s.resetCheckpoint = .ok s') : s' = s.restarted := by
  obtain ⟨_, _, hrun⟩ := Run.bind_eq_ok.mp hrun
  obtain ⟨_, _, hrun⟩ := Run.bind_eq_ok.mp hrun
  exact (Except.ok.inj hrun).symm

/-- What writing the rows leaves alone. -/
structure RowsStep (s s' : LRUCache) : Prop where
  capacity : s'.capacity = s.capacity
  memoryUsed : s'.memoryUsed = s.memoryUsed
  heap : s'.heap = s.heap
  nodes : s'.nodes = s.nodes
  tablets : s'.tablets = s.tablets
  userSize : s'.userSize = s.userSize
  virmemMeta : s'.virmemMeta = s.virmemMeta
  info : s'.chunkInfo .virtualMemory = s.chunkInfo .virtualMemory
  infoLength : (s'.chunkInfo .checkpointing).length = (s.chunkInfo .checkpointing).length
  files : ∀ dir, dir ≠ .checkpointing → s'.disk.files dir = s.disk.files dir
  log : s'.disk.log = s.disk.log

theorem rowsStep_writeRows (hrun : s.writeRows = .ok s') : RowsStep s s' := by
  refine Run.foldlM_invariant (P := RowsStep s) (fun t entry t' _ ht hrow => ?_)
    ⟨rfl, rfl, rfl, rfl, rfl, rfl, rfl, rfl, rfl, fun _ _ => rfl, rfl⟩ hrun
  have hstep := chunkStep_writeToChunkWith hrow
  exact {
    capacity := hstep.capacity.trans ht.capacity
    memoryUsed := hstep.memoryUsed.trans ht.memoryUsed
    heap := hstep.heap.trans ht.heap
    nodes := hstep.nodes.trans ht.nodes
    tablets := hstep.tablets.trans ht.tablets
    userSize := hstep.userSize.trans ht.userSize
    virmemMeta := (hstep.otherRecords .virtualMemory (by decide)).trans ht.virmemMeta
    info := (hstep.otherInfo .virtualMemory (by decide)).trans ht.info
    infoLength := hstep.infoLength.trans ht.infoLength
    files := fun dir hdir => (hstep.otherFiles dir hdir).trans (ht.files dir hdir)
    log := hstep.log.trans ht.log }

/-- The text of `metadata/chunk_info`. -/
def infoText (cpChunk cpSize vmChunk vmSize used : Int) : Str :=
  toStr cpChunk ++ ',' :: (toStr cpSize ++ ',' :: (toStr vmChunk ++ ',' :: (toStr vmSize ++ ',' :: toStr used)))

/-- The four metadata files of a state. -/
structure MetadataOf (s : LRUCache) (cp vm info sizes : Str) : Prop where
  cp : metaText s.cpMeta = .ok cp
  vm : metaText s.virmemMeta = .ok vm
  info : ∃ cpChunk cpSize vmChunk vmSize,
    atIdx (s.chunkInfo .checkpointing) 0 = .ok cpChunk ∧ atIdx (s.chunkInfo .checkpointing) 1 = .ok cpSize ∧
      atIdx (s.chunkInfo .virtualMemory) 0 = .ok vmChunk ∧ atIdx (s.chunkInfo .virtualMemory) 1 = .ok vmSize ∧
        info = infoText cpChunk cpSize vmChunk vmSize s.memoryUsed
  sizes : sizes = userSizeText s.userSize

/-- The actions that write the metadata. -/
def metadataWrites (cp vm info sizes : Str) : List FsAction :=
  [.append .metadata "cp_meta".toList cp, .append .metadata "virmem_meta".toList vm,
    .append .metadata "chunk_info".toList info, .append .metadata "user_size".toList sizes]

theorem metadataWrites_files {d : Disk} {cp vm info sizes : Str} (hmetadata : dir ≠ .metadata) :
    ((metadataWrites cp vm info sizes).foldl Disk.apply d).files dir = d.files dir := by
  simp only [metadataWrites, List.foldl_cons, List.foldl_nil, Disk.files_append_of_ne hmetadata]

theorem metadataWrites_content {d : Disk} (cp vm info sizes : Str) (hempty : ∀ name, d.content .metadata name = []) :
    ((metadataWrites cp vm info sizes).foldl Disk.apply d).content .metadata "cp_meta".toList = cp ∧
      ((metadataWrites cp vm info sizes).foldl Disk.apply d).content .metadata "virmem_meta".toList = vm ∧
        ((metadataWrites cp vm info sizes).foldl Disk.apply d).content .metadata "chunk_info".toList = info ∧
          ((metadataWrites cp vm info sizes).foldl Disk.apply d).content .metadata "user_size".toList = sizes := by
  have hcp : "cp_meta".toList ≠ "virmem_meta".toList ∧ "cp_meta".toList ≠ "chunk_info".toList ∧
      "cp_meta".toList ≠ "user_size".toList := by decide
  have hvm : "virmem_meta".toList ≠ "chunk_info".toList ∧ "virmem_meta".toList ≠ "user_size".toList := by decide
  have hinfo : "chunk_info".toList ≠ "user_size".toList := by decide
  rw [metadataWrites]
  generalize "cp_meta".toList = nCp at *
  generalize "virmem_meta".toList = nVm at *
  generalize "chunk_info".toList = nInfo at *
  generalize "user_size".toList = nSizes at *
  simp only [List.foldl_cons, List.foldl_nil]
  refine ⟨?_, ?_, ?_, ?_⟩
  · rw [Disk.content_append_of_ne hcp.2.2.symm, Disk.content_append_of_ne hcp.2.1.symm,
      Disk.content_append_of_ne hcp.1.symm, Disk.content_append, hempty, List.nil_append]
  · rw [Disk.content_append_of_ne hvm.2.symm, Disk.content_append_of_ne hvm.1.symm, Disk.content_append,
      Disk.content_append_of_ne hcp.1, hempty, List.nil_append]
  · rw [Disk.content_append_of_ne hinfo.symm, Disk.content_append, Disk.content_append_of_ne hvm.1,
      Disk.content_append_of_ne hcp.2.1, hempty, List.nil_append]
  · rw [Disk.content_append, Disk.content_append_of_ne hinfo, Disk.content_append_of_ne hvm.2,
      Disk.content_append_of_ne hcp.2.2, hempty, List.nil_append]

theorem writeMetadata_ok (hrun : s.writeMetadata = .ok s') :
    ∃ cp vm info sizes, s.MetadataOf cp vm info sizes ∧ s' = (metadataWrites cp vm info sizes).foldl act s := by
  obtain ⟨t, hwrite, hrun⟩ := Run.bind_eq_ok.mp hrun
  obtain ⟨cp, hcp, ht⟩ := Run.bind_eq_ok.mp hwrite
  obtain rfl := Except.ok.inj ht
  obtain ⟨t, hwrite', hrun⟩ := Run.bind_eq_ok.mp hrun
  obtain ⟨vm, hvm, ht⟩ := Run.bind_eq_ok.mp hwrite'
  obtain rfl := Except.ok.inj ht
  obtain ⟨t, hinfo, hrun⟩ := Run.bind_eq_ok.mp hrun
  obtain ⟨cpChunk, hcpChunk, hinfo⟩ := Run.bind_eq_ok.mp hinfo
  obtain ⟨cpSize, hcpSize, hinfo⟩ := Run.bind_eq_ok.mp hinfo
  obtain ⟨vmChunk, hvmChunk, hinfo⟩ := Run.bind_eq_ok.mp hinfo
  obtain ⟨vmSize, hvmSize, hinfo⟩ := Run.bind_eq_ok.mp hinfo
  obtain rfl := Except.ok.inj hinfo
  obtain rfl := Except.ok.inj hrun
  exact ⟨cp, vm, _, _,
    ⟨hcp, hvm, ⟨cpChunk, cpSize, vmChunk, vmSize, hcpChunk, hcpSize, hvmChunk, hvmSize, rfl⟩, rfl⟩, rfl⟩

/-! ### A completed checkpoint -/

/-- The state in which a checkpoint writes its rows. -/
def emptied (s : LRUCache) : LRUCache := ((clearance s.disk).foldl act s).restarted

theorem emptied_eq : s.emptied = { s.restarted with
    disk := (clearance s.disk).foldl Disk.apply s.disk
    syscalls := s.syscalls ++ clearance s.disk } := by
  rw [emptied, foldl_act]
  rfl

theorem emptied_disk : s.emptied.disk = bareDisk s.disk := by
  rw [emptied, foldl_act, ← foldl_clearance]
  rfl

theorem emptied_checkpointing : s.emptied.chunkInfo .checkpointing = ((s.chunkInfo .checkpointing).set 0 0).set 1 0 := by
  rw [emptied_eq]
  exact Function.update_self ChunkType.checkpointing _ s.chunkInfo

theorem emptied_virtualMemory : s.emptied.chunkInfo .virtualMemory = s.chunkInfo .virtualMemory := by
  rw [emptied_eq]
  rfl

/-- The disk a checkpoint leaves, after its rows. -/
def savedDisk (d : Disk) (cp vm info sizes : Str) : Disk :=
  ((metadataWrites cp vm info sizes).foldl Disk.apply d).setFiles .cpVirtualMemory (d.files .virtualMemory)

theorem checkpointing_ok (hrun : s.checkpointing = .ok s') :
    ∃ t cp vm info sizes actions, s.emptied.writeRows = .ok t ∧ t.MetadataOf cp vm info sizes ∧
      s' = { t with disk := savedDisk t.disk cp vm info sizes, syscalls := actions } := by
  obtain ⟨t₁, hreset, hrun⟩ := Run.bind_eq_ok.mp hrun
  obtain ⟨t, hrows, hrun⟩ := Run.bind_eq_ok.mp hrun
  obtain ⟨t₂, hmeta, hrun⟩ := Run.bind_eq_ok.mp hrun
  obtain rfl := resetCheckpoint_ok hreset
  obtain ⟨cp, vm, info, sizes, hmetadata, rfl⟩ := writeMetadata_ok hmeta
  rw [clearCheckpoint_eq] at hrows
  have hdisk : ((metadataWrites cp vm info sizes).foldl act t).disk =
      (metadataWrites cp vm info sizes).foldl Disk.apply t.disk := by rw [foldl_act]
  have hbare : ((metadataWrites cp vm info sizes).foldl act t).disk.files .cpVirtualMemory = ∅ := by
    rw [hdisk, metadataWrites_files (by decide), (rowsStep_writeRows hrows).files _ (by decide), ← emptied,
      emptied_disk]
    rfl
  rw [copyDir_eq (by decide) hbare, hdisk, metadataWrites_files (by decide), foldl_act] at hrun
  exact ⟨t, cp, vm, info, sizes, _, hrows, hmetadata, (Except.ok.inj hrun).symm⟩

section Saved

variable {d : Disk} {cp vm info sizes : Str}

theorem savedDisk_files {dir : Dir} (hmetadata : dir ≠ .metadata) (hcopy : dir ≠ .cpVirtualMemory) :
    (savedDisk d cp vm info sizes).files dir = d.files dir := by
  rw [savedDisk, Disk.files_setFiles_of_ne hcopy, metadataWrites_files hmetadata]

theorem savedDisk_cpVirtualMemory : (savedDisk d cp vm info sizes).files .cpVirtualMemory = d.files .virtualMemory :=
  Disk.files_setFiles

theorem savedDisk_log : (savedDisk d cp vm info sizes).log = d.log := rfl

theorem savedDisk_metadata (hfiles : d.files .metadata = ∅) :
    (savedDisk d cp vm info sizes).content .metadata "cp_meta".toList = cp ∧
      (savedDisk d cp vm info sizes).content .metadata "virmem_meta".toList = vm ∧
        (savedDisk d cp vm info sizes).content .metadata "chunk_info".toList = info ∧
          (savedDisk d cp vm info sizes).content .metadata "user_size".toList = sizes := by
  have hcontent (name : Str) : (savedDisk d cp vm info sizes).content .metadata name =
      ((metadataWrites cp vm info sizes).foldl Disk.apply d).content .metadata name := by
    rw [Disk.content, savedDisk, Disk.files_setFiles_of_ne (by decide), Disk.content]
  rw [hcontent, hcontent, hcontent, hcontent]
  exact metadataWrites_content cp vm info sizes fun name => Disk.content_of_empty hfiles

end Saved

end LRUCache

end PennCloud
