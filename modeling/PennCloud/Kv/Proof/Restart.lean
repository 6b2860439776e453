import PennCloud.Kv.Proof.Metadata
import PennCloud.Kv.Proof.Rounds

/-!
# Counters after a restart

The two counters of a series are pushed to `chunk_info` once, by `initialize_chunk_info` or from the file that a
checkpoint writes, and never again: the vectors keep the length they had at the start. A node without a checkpoint
on its disk starts with empty vectors.
-/

namespace PennCloud

namespace LRUCache

variable {s s' t : LRUCache} {n : Nat} {files : Map Str}

/-- The length of both counter vectors, and the metadata on the disk. -/
structure Shaped (n : Nat) (files : Map Str) (s : LRUCache) : Prop where
  info : ∀ type, (s.chunkInfo type).length = n
  metadata : s.disk.files .metadata = files

theorem Shaped.of_eq (h : Shaped n files s) (hinfo : s'.chunkInfo = s.chunkInfo) (hdisk : s'.disk = s.disk) :
    Shaped n files s' := by
  refine ⟨?_, ?_⟩
  · rw [hinfo]
    exact h.info
  · rw [hdisk]
    exact h.metadata

theorem closed_shaped : Closed (Shaped n files) where
  still _ _ h hstill := h.of_eq hstill.chunkInfo hstill.disk
  insert s s' user filename value h _ _ hrun := by
    obtain ⟨p, _, rfl⟩ := insertUser_ok hrun
    exact h.of_eq rfl rfl
  store s s' user filename new h hrun := by
    obtain ⟨r, _, hrun⟩ := Run.bind_eq_ok.mp hrun
    obtain ⟨L, rfl⟩ := moveToTail_relink hrun
    exact h.of_eq rfl rfl
  evict s s' h hrun := by
    obtain ⟨x, n', t, _, _, hwrite, rfl⟩ := useVirtualMemory_ok hrun
    have hstep := chunkStep_writeToChunkWith hwrite
    refine ⟨fun type => ?_, ?_⟩
    · rw [dropped_chunkInfo]
      cases type with
      | virtualMemory => rw [hstep.infoLength, h.info]
      | checkpointing => rw [hstep.otherInfo _ (by decide), h.info]
    · rw [dropped_disk, hstep.otherFiles _ (by decide), h.metadata]
  move s t s' r user h _ hdetach hmove := by
    obtain ⟨p, n', _, _, rfl⟩ := detach_ok hdetach
    obtain ⟨L, rfl⟩ := moveToTail_relink hmove
    exact h.of_eq rfl rfl
  erase _ _ _ _ h _ := h.of_eq rfl rfl
  rename _ _ _ _ _ _ h _ := h.of_eq rfl rfl

theorem lasting_shaped : Chunkserver.Lasting (Shaped n files) :=
  ⟨closed_shaped, fun _ _ h => ⟨h.info, h.metadata⟩⟩

/-- Both vectors hold two entries. -/
def Indexable (s : LRUCache) : Prop := ∀ type, (s.chunkInfo type).length = 2

/-- The places that index `chunk_info` do so within two entries. -/
theorem Indexable.in_range (h : s.Indexable) (type : ChunkType) :
    (∃ chunk fill, atIdx (s.chunkInfo type) 0 = .ok chunk ∧ atIdx (s.chunkInfo type) 1 = .ok fill) ∧
      (∀ user str size, ∃ s', s.updateMetadata type user str size = .ok s') ∧ (∃ s', s.nextChunk type = .ok s') ∧
        (∃ s', s.resetCheckpoint = .ok s') ∧ ∃ s', s.writeChunkInfo = .ok s' := by
  have hpair (type : ChunkType) : ∃ chunk fill, s.chunkInfo type = [chunk, fill] := List.length_eq_two.mp (h type)
  have hindex (type : ChunkType) :
      ∃ chunk fill, atIdx (s.chunkInfo type) 0 = .ok chunk ∧ atIdx (s.chunkInfo type) 1 = .ok fill := by
    obtain ⟨chunk, fill, hinfo⟩ := hpair type
    rw [hinfo]
    exact ⟨chunk, fill, rfl, rfl⟩
  obtain ⟨chunk, fill, hchunk, hfill⟩ := hindex type
  obtain ⟨cpChunk, cpFill, hcpChunk, hcpFill⟩ := hindex .checkpointing
  obtain ⟨vmChunk, vmFill, hvmChunk, hvmFill⟩ := hindex .virtualMemory
  refine ⟨⟨chunk, fill, hchunk, hfill⟩, fun user str size => ?_, ?_, ?_, ?_⟩
  · have hacted : (s.act (.append type.dir (chunkName chunk) str)).chunkInfo = s.chunkInfo := rfl
    rw [updateMetadata, hchunk, Run.ok_bind]
    dsimp only
    rw [hacted, hfill]
    exact ⟨_, rfl⟩
  · rw [nextChunk, hchunk]
    exact ⟨_, rfl⟩
  · rw [resetCheckpoint, hcpChunk, hcpFill]
    exact ⟨_, rfl⟩
  · rw [writeChunkInfo, hcpChunk, hcpFill, hvmChunk, hvmFill]
    exact ⟨_, rfl⟩

/-! ### What a checkpoint writes -/

/-- The file `chunk_info` holds the text of counters. -/
def Informed (files : Map Str) : Prop :=
  ∃ cpChunk cpSize vmChunk vmSize used,
    files.getD "chunk_info".toList [] = infoText cpChunk cpSize vmChunk vmSize used

/-- A checkpoint keeps the lengths, and writes the counters down. -/
theorem Shaped.checkpointing (h : Shaped n files s) (hrun : s.checkpointing = .ok s') :
    ∃ files', Shaped n files' s' ∧ Informed files' := by
  obtain ⟨t, cp, vm, info, sizes, actions, hrows, hmetadata, rfl⟩ := checkpointing_ok hrun
  have hstep := rowsStep_writeRows hrows
  have hempty : t.disk.files .metadata = ∅ := by
    rw [hstep.files _ (by decide), emptied_disk]
    rfl
  refine ⟨_, ⟨fun type => ?_, rfl⟩, ?_⟩
  · cases type with
    | virtualMemory => exact (congrArg List.length (hstep.info.trans emptied_virtualMemory)).trans (h.info _)
    | checkpointing =>
        refine hstep.infoLength.trans ?_
        rw [emptied_checkpointing, List.length_set, List.length_set, h.info]
  · obtain ⟨cpChunk, cpSize, vmChunk, vmSize, _, _, _, _, rfl⟩ := hmetadata.info
    exact ⟨cpChunk, cpSize, vmChunk, vmSize, _, (savedDisk_metadata hempty).2.2.1⟩

/-! ### What a start reads -/

theorem loadCpVmMeta_ok {name : String} {type : ChunkType} (hrun : s.loadCpVmMeta name type = .ok s') :
    ∃ records, s' = s.setMeta type records := by
  have hset (records records' : Map Records) :
      (s.setMeta type records).setMeta type records' = s.setMeta type records' := by cases type <;> rfl
  have hself : s.setMeta type (s.metaOf type) = s := by cases type <;> rfl
  refine Run.foldlM_invariant (P := fun t => ∃ records, t = s.setMeta type records)
    (fun t text t' _ ht hparse => ?_) ⟨_, hself.symm⟩ hrun
  rw [parseMeta] at hparse
  split at hparse
  · exact Except.ok.inj hparse ▸ ht
  · next user lines _ =>
      refine Run.foldlM_invariant (P := fun t => ∃ records, t = s.setMeta type records)
        (fun t line t' _ ht hrecord => ?_) ht hparse
      obtain ⟨records, rfl⟩ := ht
      obtain ⟨record, _, hrecord⟩ := Run.bind_eq_ok.mp hrecord
      obtain rfl := Except.ok.inj hrecord
      exact ⟨_, hset _ _⟩

theorem loadChunkInfo_ok (hrun : s.loadChunkInfo = .ok s') : ∃ info, s' = { s with chunkInfo := info } := by
  refine Run.foldlM_invariant (P := fun t => ∃ info, t = { s with chunkInfo := info })
    (fun t field t' _ ht hfield => ?_) ⟨_, rfl⟩ hrun
  obtain ⟨info, rfl⟩ := ht
  obtain ⟨field, counter⟩ := field
  dsimp only at hfield
  split at hfield
  · obtain ⟨n, _, hfield⟩ := Run.bind_eq_ok.mp hfield
    exact ⟨_, (Except.ok.inj hfield).symm⟩
  split at hfield
  · obtain ⟨n, _, hfield⟩ := Run.bind_eq_ok.mp hfield
    exact ⟨_, (Except.ok.inj hfield).symm⟩
  · exact ⟨_, (Except.ok.inj hfield).symm⟩

theorem loadUserSize_ok (hrun : s.loadUserSize = .ok s') : ∃ sizes, s' = { s with userSize := sizes } := by
  refine Run.foldlM_invariant (P := fun t => ∃ sizes, t = { s with userSize := sizes })
    (fun t entry t' _ ht hentry => ?_) ⟨_, rfl⟩ hrun
  obtain ⟨sizes, rfl⟩ := ht
  obtain ⟨size, _, hentry⟩ := Run.bind_eq_ok.mp hentry
  exact ⟨_, (Except.ok.inj hentry).symm⟩

theorem Shaped.loadChunkInfo (h : Shaped 0 files s) (hfiles : Informed files) (hrun : s.loadChunkInfo = .ok s') :
    Shaped 2 files s' := by
  obtain ⟨cpChunk, cpSize, vmChunk, vmSize, used, htext⟩ := hfiles
  rw [loadChunkInfo_infoText (by rw [Disk.content, h.metadata]; exact htext)] at hrun
  obtain ⟨a, _, hrun⟩ := Run.bind_eq_ok.mp hrun
  obtain ⟨b, _, hrun⟩ := Run.bind_eq_ok.mp hrun
  obtain ⟨c, _, hrun⟩ := Run.bind_eq_ok.mp hrun
  obtain ⟨d, _, hrun⟩ := Run.bind_eq_ok.mp hrun
  obtain rfl := Except.ok.inj hrun
  have hnil (type : ChunkType) : s.chunkInfo type = [] := List.length_eq_zero_iff.mp (h.info type)
  refine ⟨fun type => ?_, h.metadata⟩
  cases type <;> simp [pushChunkInfo, hnil]

theorem Shaped.loadMetadata (h : Shaped 0 files s) {n : Nat} (hfiles : files = ∅ ∧ n = 0 ∨ Informed files ∧ n = 2)
    (hrun : s.loadMetadata = .ok s') : Shaped n files s' := by
  obtain ⟨t, hcp, hrun⟩ := Run.bind_eq_ok.mp hrun
  obtain ⟨t', hvm, hrun⟩ := Run.bind_eq_ok.mp hrun
  obtain ⟨t'', hinfo, hsizes⟩ := Run.bind_eq_ok.mp hrun
  have ht : Shaped 0 files t := by
    obtain ⟨records, rfl⟩ := loadCpVmMeta_ok hcp
    exact h.of_eq rfl rfl
  have ht' : Shaped 0 files t' := by
    obtain ⟨records, rfl⟩ := loadCpVmMeta_ok hvm
    exact ht.of_eq rfl rfl
  have ht'' : Shaped n files t'' := by
    rcases hfiles with ⟨rfl, rfl⟩ | ⟨hinformed, rfl⟩
    · rw [loadChunkInfo_empty (Disk.content_of_empty ht'.metadata)] at hinfo
      exact Except.ok.inj hinfo ▸ ht'
    · exact ht'.loadChunkInfo hinformed hinfo
  obtain ⟨sizes, rfl⟩ := loadUserSize_ok hsizes
  exact ht''.of_eq rfl rfl

theorem Shaped.loadCheckpointing (h : Shaped 0 files s) {n fuel : Nat}
    (hfiles : files = ∅ ∧ n = 0 ∨ Informed files ∧ n = 2) (hrun : s.loadCheckpointing fuel = .ok s') :
    Shaped n files s' := by
  obtain ⟨t, hmetadata, hrun⟩ := Run.bind_eq_ok.mp hrun
  obtain ⟨t', husers, hrun⟩ := Run.bind_eq_ok.mp hrun
  have ht' : Shaped n files t' := Run.foldlM_invariant (P := Shaped n files)
    (fun t entry t' _ ht hload => (closed_shaped.kept entry.1 (-1)).loadUserFromDisk ht hload)
    (h.loadMetadata hfiles hmetadata) husers
  dsimp only at hrun
  have hcleared : (t'.clearDir .virtualMemory).disk = t'.disk.setFiles .virtualMemory ∅ := by rw [clearDir_eq]
  have hempty : (t'.clearDir .virtualMemory).disk.files .virtualMemory = ∅ := by rw [hcleared, Disk.files_setFiles]
  rw [copyDir_eq (by decide) hempty] at hrun
  obtain rfl := Except.ok.inj hrun
  refine ⟨fun type => ?_, ?_⟩
  · rw [clearDir_eq]
    exact ht'.info type
  · rw [hcleared]
    exact ht'.metadata

end LRUCache

namespace Chunkserver

open LRUCache

variable {s s' s₀ t u : Chunkserver} {fuel fuel' n : Nat} {capacity secondaryFd : Int} {isPrimary : Bool} {disk : Disk}
  {files : Map Str} {rounds later : List Round}

theorem Lasting.replayLog {I : LRUCache → Prop} (h : Lasting I) (hs : I s.lru) (hrun : s.replayLog fuel = .ok s') :
    I s'.lru := by
  refine Run.foldlM_invariant (P := fun s => I s.lru) (fun s line s' _ hs hline => ?_) hs hrun
  rw [replayLine] at hline
  split at hline
  · rw [put_eq] at hline
    obtain ⟨request, _, hline⟩ := Run.bind_eq_ok.mp hline
    exact h.obey hs hline
  split at hline
  · rw [cput_eq] at hline
    obtain ⟨request, _, hline⟩ := Run.bind_eq_ok.mp hline
    exact h.obey hs hline
  split at hline
  · rw [dele_eq] at hline
    obtain ⟨request, _, hline⟩ := Run.bind_eq_ok.mp hline
    exact h.obey hs hline
  · exact Except.ok.inj hline ▸ hs

/-! ### Pointers -/

theorem wired_checkpointing {lru lru' : LRUCache} (h : lru.Wired) (hrun : lru.checkpointing = .ok lru') : lru'.Wired := by
  obtain ⟨t, cp, vm, info, sizes, actions, hrows, _, rfl⟩ := checkpointing_ok hrun
  have hstep := rowsStep_writeRows hrows
  rw [emptied_eq] at hstep
  exact h.congr hstep.heap hstep.nodes hstep.tablets fun u hu => hstep.virmemMeta ▸ hu

theorem lasting_wired : Lasting Wired := ⟨closed_wired, fun _ _ h => h.congr rfl rfl rfl fun _ hu => hu⟩

/-- A start with `-n` leaves the cache that was booted. -/
theorem initialization_new (hstart : (boot capacity isPrimary secondaryFd disk).initialization fuel true = .ok s) :
    s.lru.heap = (boot capacity isPrimary secondaryFd disk).lru.heap ∧ s.lru.nodes = 0 ∧ s.lru.tablets = ∅ ∧
      s.lru.virmemMeta = ∅ := by
  obtain rfl := Except.ok.inj hstart
  simp only [initializeChunkInfo, clearDir_eq]
  exact ⟨rfl, rfl, rfl, rfl⟩

/-- Whatever is on the disk, a start builds a list whose pointers lead somewhere. -/
theorem wired_initialization {optN : Bool}
    (hstart : (boot capacity isPrimary secondaryFd disk).initialization fuel optN = .ok s) : s.lru.Wired := by
  have hboot : (boot capacity isPrimary secondaryFd disk).lru.Wired := wired_init
  cases optN with
  | true =>
      obtain ⟨hheap, hnodes, htablets, _⟩ := initialization_new hstart
      exact hboot.of_nobody hheap hnodes rfl htablets
  | false =>
      obtain ⟨lru, hload, hreplay⟩ := Run.bind_eq_ok.mp hstart
      obtain ⟨t, hmetadata, hload⟩ := Run.bind_eq_ok.mp hload
      obtain ⟨t', husers, hload⟩ := Run.bind_eq_ok.mp hload
      have ht : t.Wired := by
        obtain ⟨t₁, hcp, hmetadata⟩ := Run.bind_eq_ok.mp hmetadata
        obtain ⟨t₂, hvm, hmetadata⟩ := Run.bind_eq_ok.mp hmetadata
        obtain ⟨t₃, hinfo, hsizes⟩ := Run.bind_eq_ok.mp hmetadata
        obtain ⟨_, rfl⟩ := loadCpVmMeta_ok hcp
        obtain ⟨_, rfl⟩ := loadCpVmMeta_ok hvm
        obtain ⟨_, rfl⟩ := loadChunkInfo_ok hinfo
        obtain ⟨_, rfl⟩ := loadUserSize_ok hsizes
        exact hboot.of_nobody rfl rfl rfl rfl
      have ht' : t'.Wired := Run.foldlM_invariant (P := Wired)
        (fun t entry t' _ ht hload => (closed_wired.kept entry.1 (-1)).loadUserFromDisk ht hload) ht husers
      refine lasting_wired.replayLog (s := { boot capacity isPrimary secondaryFd disk with lru := lru }) ?_ hreplay
      obtain rfl := Except.ok.inj hload
      simp only [copyDir_eq_foldl, clearDir_eq, foldl_act]
      exact ht'.congr rfl rfl rfl fun _ hu => hu

theorem wired_rounds {optN : Bool}
    (hstart : (boot capacity isPrimary secondaryFd disk).initialization fuel optN = .ok s₀)
    (hrun : Run.Runs Takes s₀ rounds s) : s.lru.Wired :=
  lasting_wired.rounds (fun _ _ => wired_checkpointing) (wired_initialization hstart) hrun

/-! ### Starts -/

theorem initialization_fresh (capacity secondaryFd : Int) (isPrimary : Bool) (fuel : Nat) :
    (boot capacity isPrimary secondaryFd Disk.empty).initialization fuel true = .ok (fresh capacity isPrimary secondaryFd) := by
  have hinfo : (initializeChunkInfo (initializeChunkInfo (init capacity isPrimary (fun _ => []) Disk.empty) .virtualMemory)
      .checkpointing).chunkInfo = fun _ => [0, 0] := by
    funext type
    cases type <;> rfl
  have hlru : initializeChunkInfo (initializeChunkInfo (init capacity isPrimary (fun _ => []) Disk.empty) .virtualMemory)
      .checkpointing = LRUCache.fresh capacity isPrimary := by
    rw [LRUCache.fresh]
    exact congrArg (fun c => { init capacity isPrimary (fun _ => []) Disk.empty with chunkInfo := c }) hinfo
  rw [initialization, if_pos rfl, fresh, ← hlru]
  rfl

theorem shaped_initialization (hstart : (boot capacity isPrimary secondaryFd disk).initialization fuel true = .ok s) :
    Shaped 2 ∅ s.lru := by
  obtain rfl := Except.ok.inj hstart
  refine ⟨fun type => ?_, ?_⟩
  · simp only [initializeChunkInfo, clearDir_eq]
    cases type <;> rfl
  · have hdisk (lru : LRUCache) (key : ChunkType) : (initializeChunkInfo lru key).disk = lru.disk := rfl
    rw [hdisk, hdisk, clearDir_eq, Disk.files_setFiles]

theorem shaped_restart (hfiles : disk.files .metadata = files) (hcase : files = ∅ ∧ n = 0 ∨ Informed files ∧ n = 2)
    (hrestart : (boot capacity isPrimary secondaryFd disk).initialization fuel false = .ok s) : Shaped n files s.lru := by
  obtain ⟨lru, hload, hreplay⟩ := Run.bind_eq_ok.mp hrestart
  have hboot : Shaped 0 files (boot capacity isPrimary secondaryFd disk).lru := ⟨fun _ => rfl, hfiles⟩
  exact lasting_shaped.replayLog (s := { boot capacity isPrimary secondaryFd disk with lru := lru })
    (hboot.loadCheckpointing hcase hload) hreplay

/-! ### Runs -/

/-- A run of a node leaves the lengths as they are, and the counters on the disk once it has written a checkpoint. -/
theorem shaped_rounds (hs : Shaped n files s.lru) (hrun : Run.Runs Takes s rounds t) :
    ∃ files', Shaped n files' t.lru ∧ (Round.checkpoint ∉ rounds ∧ files' = files ∨ Round.checkpoint ∈ rounds ∧ Informed files') := by
  refine Run.Runs.invariant (P := fun rounds t => ∃ files', Shaped n files' t.lru ∧
      (Round.checkpoint ∉ rounds ∧ files' = files ∨ Round.checkpoint ∈ rounds ∧ Informed files'))
    ⟨files, hs, Or.inl ⟨List.not_mem_nil, rfl⟩⟩ (fun rounds t round t' ht htakes => ?_) hrun
  obtain ⟨files', ht, hcase⟩ := ht
  have hsame (hround : round ≠ .checkpoint) (ht' : Shaped n files' t'.lru) : ∃ files'', Shaped n files'' t'.lru ∧
      (Round.checkpoint ∉ rounds ++ [round] ∧ files'' = files ∨ Round.checkpoint ∈ rounds ++ [round] ∧ Informed files'') := by
    refine ⟨files', ht', ?_⟩
    rw [List.mem_append, List.mem_singleton, or_iff_left hround.symm]
    exact hcase
  cases round with
  | client commFd buffer => exact hsame nofun (htakes.elim fun fuel hrun => lasting_shaped.worker ht hrun)
  | primary sockFd buffer => exact hsame nofun (htakes.elim fun fuel hrun => lasting_shaped.psWorker ht hrun)
  | checkpoint =>
      obtain ⟨lru, hcheck, rfl⟩ := htakes
      obtain ⟨files'', ht'', hinformed⟩ := ht.checkpointing hcheck
      exact ⟨files'', ht'', Or.inr ⟨List.mem_append_right _ List.mem_cons_self, hinformed⟩⟩

/-- After a restart the counters are there, now and after everything that follows, exactly when the run before it
completed a checkpoint. -/
theorem indexable_iff {capacity' secondaryFd' : Int} {isPrimary' : Bool}
    (hstart : (boot capacity isPrimary secondaryFd disk).initialization fuel true = .ok s₀)
    (hrun : Run.Runs Takes s₀ rounds s)
    (hrestart : (boot capacity' isPrimary' secondaryFd' s.lru.disk).initialization fuel' false = .ok t)
    (hlater : Run.Runs Takes t later u) :
    u.lru.Indexable ↔ Round.checkpoint ∈ rounds := by
  obtain ⟨files, hs, hcase⟩ := shaped_rounds (shaped_initialization hstart) hrun
  rcases hcase with ⟨hnever, rfl⟩ | ⟨hdone, hinformed⟩
  · obtain ⟨_, hu, _⟩ := shaped_rounds (shaped_restart hs.metadata (Or.inl ⟨rfl, rfl⟩) hrestart) hlater
    refine iff_of_false (fun htwo => ?_) hnever
    have hlength := (hu.info .checkpointing).symm.trans (htwo .checkpointing)
    omega
  · obtain ⟨_, hu, _⟩ := shaped_rounds (shaped_restart hs.metadata (Or.inr ⟨hinformed, rfl⟩) hrestart) hlater
    exact iff_of_true hu.info hdone

/-- A checkpoint with users in memory and in virtual memory, a put that is only in the log, and behind the restart a put that
evicts and another checkpoint. -/
theorem indexable_after_checkpoint : ∃ s₀ s t u : Chunkserver,
    let rounds := [.client 7 "put u,f,abc\r\n".toList, .client 7 "put v,g,ddd\r\n".toList, .client 7 "put w,h,e\r\n".toList,
      .checkpoint, .client 7 "put w,k,z\r\n".toList]
    (boot 12 true 5 Disk.empty).initialization 10 true = .ok s₀ ∧ Run.Runs Takes s₀ rounds s ∧
      (boot 12 true 5 s.lru.disk).initialization 10 false = .ok t ∧
        Run.Runs Takes t [.client 7 "put x,f,yyyy\r\n".toList, .checkpoint] u ∧
          t.lru.view "w".toList "k".toList = some "z\r\n".toList ∧ t.lru.virmemMeta["u".toList]? ≠ none ∧
            u.lru.virmemMeta["v".toList]? ≠ none ∧ (u.lru.Indexable ↔ Round.checkpoint ∈ rounds) := by
  let run : Except Fault (Chunkserver × Chunkserver × Chunkserver × Chunkserver × LRUCache × Chunkserver × Chunkserver ×
      Chunkserver × LRUCache) := do
    let s₀ ← (boot 12 true 5 Disk.empty).initialization 10 true
    let s₁ ← s₀.worker 10 7 "put u,f,abc\r\n".toList
    let s₂ ← s₁.worker 10 7 "put v,g,ddd\r\n".toList
    let s₃ ← s₂.worker 10 7 "put w,h,e\r\n".toList
    let lru ← s₃.lru.checkpointing
    let s ← ({ s₃ with lru := lru } : Chunkserver).worker 10 7 "put w,k,z\r\n".toList
    let t ← (boot 12 true 5 s.lru.disk).initialization 10 false
    let u ← t.worker 10 7 "put x,f,yyyy\r\n".toList
    let lru' ← u.lru.checkpointing
    .ok (s₀, s₁, s₂, s₃, lru, s, t, u, lru')
  have hends : run.toOption.any (fun (_, _, _, _, _, _, t, _, lru') =>
      decide (t.lru.view "w".toList "k".toList = some "z\r\n".toList ∧ t.lru.virmemMeta["u".toList]? ≠ none ∧
        lru'.virmemMeta["v".toList]? ≠ none)) = true := by decide +kernel
  cases hrun : run with
  | error fault => exact absurd hends (by rw [hrun]; exact Bool.false_ne_true)
  | ok states =>
      obtain ⟨s₀, s₁, s₂, s₃, lru, s, t, u, lru'⟩ := states
      rw [hrun] at hends
      obtain ⟨hview, hevicted, hevicted'⟩ := of_decide_eq_true hends
      obtain ⟨_, hstart, hrest⟩ := Run.bind_eq_ok.mp hrun
      obtain ⟨_, hs₁, hrest⟩ := Run.bind_eq_ok.mp hrest
      obtain ⟨_, hs₂, hrest⟩ := Run.bind_eq_ok.mp hrest
      obtain ⟨_, hs₃, hrest⟩ := Run.bind_eq_ok.mp hrest
      obtain ⟨_, hcheck, hrest⟩ := Run.bind_eq_ok.mp hrest
      obtain ⟨_, hs, hrest⟩ := Run.bind_eq_ok.mp hrest
      obtain ⟨_, hrestart, hrest⟩ := Run.bind_eq_ok.mp hrest
      obtain ⟨_, hu, hrest⟩ := Run.bind_eq_ok.mp hrest
      obtain ⟨_, hcheck', hrest⟩ := Run.bind_eq_ok.mp hrest
      cases hrest
      have hrounds : Run.Runs Takes s₀ [.client 7 "put u,f,abc\r\n".toList, .client 7 "put v,g,ddd\r\n".toList,
          .client 7 "put w,h,e\r\n".toList, .checkpoint, .client 7 "put w,k,z\r\n".toList] s :=
        .cons ⟨10, hs₁⟩ (.cons ⟨10, hs₂⟩ (.cons ⟨10, hs₃⟩ (.cons ⟨lru, hcheck, rfl⟩ (.cons ⟨10, hs⟩ .nil))))
      have hlater : Run.Runs Takes t [.client 7 "put x,f,yyyy\r\n".toList, .checkpoint] { u with lru := lru' } :=
        .cons ⟨10, hu⟩ (.cons ⟨lru', hcheck', rfl⟩ .nil)
      exact ⟨s₀, s, t, { u with lru := lru' }, hstart, hrounds, hrestart, hlater, hview, hevicted, hevicted',
        indexable_iff hstart hrounds hrestart hlater⟩

/-- A node that is stopped before its first checkpoint comes back without counters. The next checkpoint and the next
eviction end the process. -/
theorem indexable_counterexample : ∃ s₀ s t : Chunkserver,
    (boot 10 true 5 Disk.empty).initialization 10 true = .ok s₀ ∧ s₀.worker 10 7 "put u,f,abc\r\n".toList = .ok s ∧
      (boot 10 true 5 s.lru.disk).initialization 10 false = .ok t ∧ t.lru.chunkInfo .virtualMemory = [] ∧
        t.lru.chunkInfo .checkpointing = [] ∧ t.lru.checkpointing.map (fun _ => ()) = .error .outOfRange ∧
          (t.worker 10 7 "put v,g,1234567\r\n".toList).map (fun _ => ()) = .error .outOfRange := by
  let run : Except Fault Chunkserver := do
    let s₀ ← (boot 10 true 5 Disk.empty).initialization 10 true
    let s ← s₀.worker 10 7 "put u,f,abc\r\n".toList
    (boot 10 true 5 s.lru.disk).initialization 10 false
  have hends : (match run with
      | .ok t => decide (t.lru.chunkInfo .virtualMemory = [] ∧ t.lru.chunkInfo .checkpointing = [] ∧
          t.lru.checkpointing.map (fun _ => ()) = .error .outOfRange ∧
          (t.worker 10 7 "put v,g,1234567\r\n".toList).map (fun _ => ()) = .error .outOfRange)
      | .error _ => false) = true := by decide +kernel
  cases hrun : run with
  | error fault => exact absurd hends (by rw [hrun]; exact Bool.false_ne_true)
  | ok t =>
      rw [hrun] at hends
      obtain ⟨s₀, hstart, hrest⟩ := Run.bind_eq_ok.mp hrun
      obtain ⟨s, hput, hrestart⟩ := Run.bind_eq_ok.mp hrest
      exact ⟨s₀, s, t, hstart, hput, hrestart, of_decide_eq_true hends⟩

end Chunkserver

end PennCloud
