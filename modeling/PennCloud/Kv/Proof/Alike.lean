import PennCloud.Kv.Proof.Commands

/-!
# What the cache never looks at

No command depends on what has been sent before, on the log, on the list of file actions or on where its
answer goes; the role of the node only chooses the answer. Two caches that differ in nothing else behave
alike.
-/

namespace PennCloud.LRUCache

open Run

variable {s t : LRUCache} {user filename value : Str} {r : Ref} {type : ChunkType} {fuel : Nat}
  {commFd commFd' seqNum seqNum' : Int} {external isCPUT : Bool}

/-- The two caches differ at most in their role, their log and what they have done so far. -/
def Alike (s t : LRUCache) : Prop := ∃ isPrimary syscalls sent log,
  t = { s with
    isPrimary := isPrimary, syscalls := syscalls, sent := sent, disk := { s.disk with log := log } }

theorem Alike.refl (s : LRUCache) : Alike s s := ⟨_, _, _, _, rfl⟩

theorem Alike.symm (h : Alike s t) : Alike t s := by
  obtain ⟨_, _, _, _, rfl⟩ := h
  exact ⟨_, _, _, _, rfl⟩

theorem Alike.trans {t' : LRUCache} (h : Alike s t) (h' : Alike t t') : Alike s t' := by
  obtain ⟨_, _, _, _, rfl⟩ := h
  obtain ⟨_, _, _, _, rfl⟩ := h'
  exact ⟨_, _, _, _, rfl⟩

theorem Alike.filesOf (h : Alike s t) : t.filesOf = s.filesOf := by
  obtain ⟨_, _, _, _, rfl⟩ := h
  rfl

theorem alike_send (s : LRUCache) (commFd : Int) (msg : Str) : Alike s (s.send commFd msg) := ⟨_, _, _, _, rfl⟩

theorem alike_appendLog (s : LRUCache) (line : Str) : Alike s (s.act (.appendLog line)) := ⟨_, _, _, _, rfl⟩

theorem Alike.send (h : Alike s t) (commFd commFd' : Int) (msg msg' : Str) :
    Alike (s.send commFd msg) (t.send commFd' msg') :=
  (alike_send s commFd msg).symm.trans (h.trans (alike_send t commFd' msg'))

/-! ### The list and the chunk files -/

theorem Alike.moveToTail (h : Alike s t) (r : Ref) : Related Alike (s.moveToTail r) (t.moveToTail r) := by
  obtain ⟨_, _, _, _, rfl⟩ := h
  exact .after fun prev => .ok ⟨_, _, _, _, rfl⟩

theorem Alike.detach (h : Alike s t) (r : Ref) : Related Alike (s.detach r) (t.detach r) := by
  obtain ⟨_, _, _, _, rfl⟩ := h
  exact .after fun prev => .after fun next => .ok ⟨_, _, _, _, rfl⟩

theorem Alike.clearMetadata (h : Alike s t) (type : ChunkType) (user : Str) :
    Alike (s.clearMetadata type user) (t.clearMetadata type user) := by
  obtain ⟨_, _, _, _, rfl⟩ := h
  cases type with
  | virtualMemory => exact ⟨_, _, _, _, rfl⟩
  | checkpointing => exact ⟨_, _, _, _, rfl⟩

theorem Alike.updateMetadata (h : Alike s t) (type : ChunkType) (user str : Str) (size : Int) :
    Related Alike (s.updateMetadata type user str size) (t.updateMetadata type user str size) := by
  obtain ⟨_, _, _, _, rfl⟩ := h
  refine .after fun chunk => .after fun start => .ok ?_
  cases type with
  | virtualMemory => exact ⟨_, _, _, _, rfl⟩
  | checkpointing => exact ⟨_, _, _, _, rfl⟩

theorem Alike.nextChunk (h : Alike s t) (type : ChunkType) : Related Alike (s.nextChunk type) (t.nextChunk type) := by
  obtain ⟨_, _, _, _, rfl⟩ := h
  exact .after fun chunk => .ok ⟨_, _, _, _, rfl⟩

/-- Two states of the loop of `write_to_chunk`. -/
def AlikeAt (p q : LRUCache × Int) : Prop := Alike p.1 q.1 ∧ p.2 = q.2

theorem AlikeAt.writePiece {p q : LRUCache × Int} (h : AlikeAt p q) (type : ChunkType) (user row : Str) (left : Int)
    (needed i : Nat) :
    Related AlikeAt (writePiece type user row left needed p i) (writePiece type user row left needed q i) := by
  obtain ⟨s, start⟩ := p
  obtain ⟨t, start'⟩ := q
  obtain ⟨hst, rfl⟩ := h
  unfold LRUCache.writePiece
  dsimp only
  split
  · exact .after fun piece => (hst.updateMetadata ..).bind fun _ _ h => .ok ⟨h, rfl⟩
  · split
    · exact .after fun piece => (hst.nextChunk type).bind fun _ _ h => (h.updateMetadata ..).bind fun _ _ h => .ok ⟨h, rfl⟩
    · exact .after fun piece => (hst.nextChunk type).bind fun _ _ h => (h.updateMetadata ..).bind fun _ _ h => .ok ⟨h, rfl⟩

theorem Alike.writeToChunk (h : Alike s t) (user row : Str) (type : ChunkType) :
    Related Alike (s.writeToChunk user row type) (t.writeToChunk user row type) := by
  unfold LRUCache.writeToChunk writeToChunkWith
  have hcleared := h.clearMetadata type user
  have hinfo : (t.clearMetadata type user).chunkInfo = (s.clearMetadata type user).chunkInfo := by
    obtain ⟨_, _, _, _, heq⟩ := hcleared
    rw [heq]
  dsimp only
  rw [hinfo]
  refine .after fun fill => ?_
  split
  · exact hcleared.updateMetadata ..
  · have hstart : AlikeAt (s.clearMetadata type user, 0) (t.clearMetadata type user, 0) := ⟨hcleared, rfl⟩
    refine (Related.foldlM (fun p q i hpq => hpq.writePiece ..) hstart _).bind ?_
    rintro ⟨s', _⟩ ⟨t', _⟩ ⟨hst, _⟩
    exact .ok hst

theorem Alike.useVirtualMemory (h : Alike s t) : Related Alike s.useVirtualMemory t.useVirtualMemory := by
  have hheap : t.heap = s.heap := by
    obtain ⟨_, _, _, _, rfl⟩ := h
    rfl
  unfold LRUCache.useVirtualMemory
  rw [hheap]
  refine .after fun lruUser => (h.writeToChunk ..).bind fun s' t' h' => ?_
  obtain ⟨_, _, _, _, rfl⟩ := h'
  exact .after fun next => .ok ⟨_, _, _, _, rfl⟩

/-! ### Storing -/

theorem Alike.insertUser (h : Alike s t) (user filename value : Str) :
    Related Alike (s.insertUser user filename value) (t.insertUser user filename value) := by
  have hadded : Alike (s.addNode user filename value) (t.addNode user filename value) := by
    obtain ⟨_, _, _, _, rfl⟩ := h
    exact ⟨_, _, _, _, rfl⟩
  have hnodes : t.nodes = s.nodes := by
    obtain ⟨_, _, _, _, rfl⟩ := h
    rfl
  unfold LRUCache.insertUser
  rw [hnodes]
  exact hadded.moveToTail _

theorem Alike.storeResident (h : Alike s t) (user filename : Str) (new : Str → Str) :
    Related Alike (s.storeResident user filename new) (t.storeResident user filename new) := by
  obtain ⟨_, _, _, _, rfl⟩ := h
  refine .after fun current => Alike.moveToTail ?_ current
  exact ⟨_, _, _, _, rfl⟩

theorem Alike.placeValue {load load' : LRUCache → Str → Except Fault LRUCache}
    (hload : ∀ s t, Alike s t → Related Alike (load s user) (load' t user)) (h : Alike s t) :
    Related Alike (s.placeValue load user filename value isCPUT) (t.placeValue load' user filename value isCPUT) := by
  have htablets : t.tablets = s.tablets := by
    obtain ⟨_, _, _, _, rfl⟩ := h
    rfl
  have hvirmem : t.virmemMeta = s.virmemMeta := by
    obtain ⟨_, _, _, _, rfl⟩ := h
    rfl
  have hstore : ∀ new : Str → Str, ∀ s t, Alike s t →
      Related Alike (s.storeResident user filename new) (t.storeResident user filename new) :=
    fun new s t h => h.storeResident ..
  unfold LRUCache.placeValue
  rw [htablets, hvirmem]
  dsimp only
  -- the third branch, behind both ways through the second, behind both ways through the first
  have hlast : ∀ s' t', Alike s' t' → Related Alike
      (if !!s.virmemMeta.contains user then load s' user >>= (·.storeResident user filename (· ++ value)) else .ok s')
      (if !!s.virmemMeta.contains user then load' t' user >>= (·.storeResident user filename (· ++ value)) else .ok t') := by
    intro s' t' h'
    split
    · exact (hload s' t' h').bind (hstore _)
    · exact .ok h'
  split
  · refine (h.insertUser ..).bind fun s' t' h' => ?_
    split
    · exact (hstore _ s' t' h').bind hlast
    · exact hlast s' t' h'
  · split
    · exact (hstore _ s t h).bind hlast
    · exact hlast s t h

/-- Two results of a function that also returns a value. -/
def AlikeWith {α : Type} (p q : α × LRUCache) : Prop := p.1 = q.1 ∧ Alike p.2 q.2

theorem Alike.touched (h : Alike s t) (user : Str) (external isCPUT : Bool) :
    Alike (s.touched user external isCPUT) (t.touched user external isCPUT) := by
  obtain ⟨_, _, _, _, rfl⟩ := h
  unfold LRUCache.touched
  split
  · exact ⟨_, _, _, _, rfl⟩
  · exact ⟨_, _, _, _, rfl⟩

theorem alike_reportStored : Alike s (s.reportStored user commFd isCPUT seqNum) := by
  unfold reportStored
  split
  · split
    · exact alike_send ..
    · exact alike_send ..
  · exact alike_send ..

theorem Alike.charged (h : Alike s t) : Alike (s.charged user value commFd external isCPUT seqNum)
    (t.charged user value commFd' external isCPUT seqNum') := by
  have hcounted : Alike
      (if external || isCPUT then (s.addMemory value.length).setUserSize user
        (toInt32 ((s.addMemory value.length).userSizeOf user + value.length)) else s.addMemory value.length)
      (if external || isCPUT then (t.addMemory value.length).setUserSize user
        (toInt32 ((t.addMemory value.length).userSizeOf user + value.length)) else t.addMemory value.length) := by
    obtain ⟨_, _, _, _, rfl⟩ := h
    split
    · exact ⟨_, _, _, _, rfl⟩
    · exact ⟨_, _, _, _, rfl⟩
  unfold LRUCache.charged
  dsimp only
  cases external with
  | true => exact alike_reportStored.symm.trans (hcounted.trans alike_reportStored)
  | false => exact hcounted

theorem Alike.putHelper {load load' : LRUCache → Str → Except Fault LRUCache}
    (hload : ∀ s t, Alike s t → Related Alike (load s user) (load' t user)) (h : Alike s t) :
    Related AlikeWith (s.putHelper load user filename value commFd external isCPUT seqNum)
      (t.putHelper load' user filename value commFd' external isCPUT seqNum') := by
  have hquota : t.exceedsQuota user value = s.exceedsQuota user value := by
    obtain ⟨_, _, _, _, rfl⟩ := h
    rfl
  have hfits : t.fits value = s.fits value := by
    obtain ⟨_, _, _, _, rfl⟩ := h
    rfl
  have htouched := h.touched user external isCPUT
  rw [putHelper_eq, putHelper_eq, hquota, hfits]
  split
  · exact .ok ⟨rfl, htouched.send ..⟩
  · split
    · exact (htouched.placeValue hload).bind fun s' t' h' => .ok ⟨rfl, h'.charged⟩
    · exact .ok ⟨rfl, htouched⟩

theorem Alike.putWith {loop loop' : LRUCache → Str → Str → Str → Int → Bool → Int → Except Fault LRUCache}
    (hloop : ∀ s t, Alike s t → Related Alike (loop s user filename value commFd external seqNum)
      (loop' t user filename value commFd' external seqNum')) (h : Alike s t) :
    Related Alike (putWith loop s user filename value commFd external seqNum)
      (putWith loop' t user filename value commFd' external seqNum') := by
  have hcapacity : t.capacity = s.capacity := by
    obtain ⟨_, _, _, _, rfl⟩ := h
    rfl
  unfold LRUCache.putWith
  rw [hcapacity]
  split
  · exact .ok (h.send ..)
  · exact hloop s t h

theorem Alike.loadUserFromDiskWith {put put' : LRUCache → Str → Str → Str → Except Fault LRUCache}
    (hput : ∀ filename value s t, Alike s t → Related Alike (put s user filename value) (put' t user filename value))
    (h : Alike s t) (type : ChunkType) :
    Related Alike (loadUserFromDiskWith put s type user) (loadUserFromDiskWith put' t type user) := by
  have hstart : ∀ s' t' : LRUCache, Alike s' t' → ∀ records, Related Alike
      (readRow s'.disk type records >>= restoreUserWith put s' user)
      (readRow t'.disk type records >>= restoreUserWith put' t' user) := by
    intro s' t' h' records
    have hread : readRow t'.disk type records = readRow s'.disk type records := by
      obtain ⟨_, _, _, _, rfl⟩ := h'
      rfl
    rw [hread]
    refine .after fun row => ?_
    unfold restoreUserWith
    exact Related.foldlM (fun s t file h => hput file.1 file.2 s t h) h' _
  have hmeta : t.metaOf type = s.metaOf type := by
    obtain ⟨_, _, _, _, rfl⟩ := h
    cases type <;> rfl
  unfold LRUCache.loadUserFromDiskWith
  rw [hmeta]
  cases type with
  | virtualMemory => exact hstart _ _ (h.clearMetadata ..) _
  | checkpointing => exact hstart _ _ h _

/-- Putting again what was read from disk, one round of the loop deeper. -/
theorem Alike.reloadWith (hloop : ∀ s t, Alike s t → ∀ filename value, Related Alike
      (putLoop fuel s user filename value commFd false 0) (putLoop fuel t user filename value commFd' false 0))
    (h : Alike s t) : Related Alike (reload fuel commFd s user) (reload fuel commFd' t user) :=
  Alike.loadUserFromDiskWith (fun _ _ _ _ h => Alike.putWith (fun s t h => hloop s t h _ _) h) h .virtualMemory

theorem Alike.putLoop (h : Alike s t) : Related Alike (putLoop fuel s user filename value commFd external seqNum)
    (LRUCache.putLoop fuel t user filename value commFd' external seqNum') := by
  induction fuel generalizing s t filename value external seqNum seqNum' with
  | zero => exact .error _
  | succ fuel ih =>
      have hload : ∀ s t, Alike s t → Related Alike (reload fuel commFd s user) (reload fuel commFd' t user) :=
        fun s t h => h.reloadWith fun s t h filename value => ih h
      refine Related.bind (R := AlikeWith) (h.putHelper hload) ?_
      rintro ⟨stored, s'⟩ ⟨_, t'⟩ ⟨rfl, h'⟩
      dsimp only
      split
      · exact .ok h'
      · exact h'.useVirtualMemory.bind fun s t h => ih h

theorem Alike.put (h : Alike s t) : Related Alike (s.put fuel user filename value commFd external seqNum)
    (t.put fuel user filename value commFd' external seqNum') := Alike.putWith (fun _ _ h => h.putLoop) h

theorem Alike.loadUserFromDisk (h : Alike s t) (type : ChunkType) (user : Str) :
    Related Alike (s.loadUserFromDisk fuel type user commFd) (t.loadUserFromDisk fuel type user commFd') :=
  Alike.loadUserFromDiskWith (fun _ _ _ _ h => h.put) h type

/-! ### Commands -/

theorem Alike.lookUp (h : Alike s t) : Related AlikeWith (s.lookUp user filename commFd) (t.lookUp user filename commFd') := by
  have htablets : t.tablets = s.tablets := by
    obtain ⟨_, _, _, _, rfl⟩ := h
    rfl
  unfold LRUCache.lookUp
  rw [htablets]
  refine .after fun current => (h.detach current).bind fun s t h => (h.moveToTail current).bind fun s t h => ?_
  have hheap : t.heap = s.heap := by
    obtain ⟨_, _, _, _, rfl⟩ := h
    rfl
  rw [hheap]
  split
  · exact .ok ⟨rfl, h⟩
  · exact .ok ⟨rfl, h.send ..⟩

theorem Alike.getHelper (h : Alike s t) :
    Related AlikeWith (s.getHelper fuel user filename commFd) (t.getHelper fuel user filename commFd') := by
  have htablets : t.tablets = s.tablets := by
    obtain ⟨_, _, _, _, rfl⟩ := h
    rfl
  have hvirmem : t.virmemMeta = s.virmemMeta := by
    obtain ⟨_, _, _, _, rfl⟩ := h
    rfl
  by_cases hknown : s.tablets[user]? = none ∧ s.virmemMeta[user]? = none
  · rw [getHelper_of_unknown hknown.1 hknown.2, getHelper_of_unknown (by rw [htablets, hknown.1]) (by rw [hvirmem, hknown.2])]
    exact .ok ⟨rfl, h.send ..⟩
  · rw [getHelper_of_known hknown, getHelper_of_known (by rwa [htablets, hvirmem])]
    unfold fetched
    rw [hvirmem]
    refine Related.bind (R := Alike) ?_ fun s t h => h.lookUp
    split
    · exact h.loadUserFromDisk ..
    · exact .ok h

theorem Alike.discharged (h : Alike s t) (user : Str) (size : Int) :
    Alike (s.discharged user size) (t.discharged user size) := by
  obtain ⟨_, _, _, _, rfl⟩ := h
  exact ⟨_, _, _, _, rfl⟩

theorem Alike.cput {oldValue newValue : Str} (h : Alike s t) :
    Related Alike (s.cput fuel user filename oldValue newValue commFd seqNum)
      (t.cput fuel user filename oldValue newValue commFd' seqNum') := by
  rw [cput_eq, cput_eq]
  refine Related.bind (R := AlikeWith) h.getHelper ?_
  rintro ⟨found, s'⟩ ⟨_, t'⟩ ⟨rfl, h'⟩
  cases found with
  | none => exact .ok h'
  | some found =>
      dsimp only
      split
      · refine Related.bind (R := AlikeWith) ?_ fun p q hpq => .ok hpq.2
        exact (h'.discharged ..).putHelper fun s t h => h.loadUserFromDisk ..
      · exact .ok (h'.send ..)

theorem alike_reportDeleted (s : LRUCache) (user : Str) (commFd seqNum : Int) (isMigration : Bool) :
    Alike s (s.reportDeleted user commFd seqNum isMigration) := by
  unfold reportDeleted
  split
  · split
    · exact .refl s
    · exact alike_send ..
  · split
    · exact alike_send ..
    · exact .refl s

theorem Alike.leave (h : Alike s t) (user : Str) (r : Ref) : Related Alike
    (if (s.heap r).value.isEmpty then .ok { s with tablets := s.tablets.erase user } else (.ok s : Except Fault LRUCache))
    (if (t.heap r).value.isEmpty then .ok { t with tablets := t.tablets.erase user } else .ok t) := by
  obtain ⟨_, _, _, _, rfl⟩ := h
  dsimp only
  split
  · exact .ok ⟨_, _, _, _, rfl⟩
  · exact .ok ⟨_, _, _, _, rfl⟩

theorem Alike.dele {isMigration isMigration' : Bool} (h : Alike s t) :
    Related Alike (s.dele fuel user filename commFd seqNum isMigration)
      (t.dele fuel user filename commFd' seqNum' isMigration') := by
  rw [dele_eq, dele_eq]
  refine Related.bind (R := AlikeWith) h.getHelper ?_
  rintro ⟨found, s'⟩ ⟨_, t'⟩ ⟨rfl, h'⟩
  cases found with
  | none => exact .ok h'
  | some value =>
      have htablets : t'.tablets = s'.tablets := by
        obtain ⟨_, _, _, _, rfl⟩ := h'
        rfl
      dsimp only
      unfold eraseFile
      rw [htablets]
      refine .after fun current => ?_
      have herased : Alike
          ((s'.discharged user ((s'.heap current).value.getD filename []).length).setValue current
            ((s'.heap current).value.erase filename))
          ((t'.discharged user ((t'.heap current).value.getD filename []).length).setValue current
            ((t'.heap current).value.erase filename)) := by
        obtain ⟨_, _, _, _, rfl⟩ := h'
        exact ⟨_, _, _, _, rfl⟩
      have hreported := (alike_reportDeleted _ user commFd seqNum isMigration).symm.trans
        (herased.trans (alike_reportDeleted _ user commFd' seqNum' isMigration'))
      exact hreported.leave user current

theorem Alike.rename {newFilename : Str} (h : Alike s t) :
    Related Alike (s.rename fuel user filename newFilename commFd seqNum)
      (t.rename fuel user filename newFilename commFd' seqNum') := by
  rw [rename_eq, rename_eq]
  refine Related.bind (R := AlikeWith) h.getHelper ?_
  rintro ⟨found, s'⟩ ⟨_, t'⟩ ⟨rfl, h'⟩
  cases found with
  | none => exact .ok h'
  | some value =>
      have htablets : t'.tablets = s'.tablets := by
        obtain ⟨_, _, _, _, rfl⟩ := h'
        rfl
      dsimp only
      unfold moveFile
      rw [htablets]
      refine .after fun current => .ok ?_
      have hmoved : Alike (s'.setValue current (((s'.heap current).value.erase filename).insert newFilename value))
          (t'.setValue current (((t'.heap current).value.erase filename).insert newFilename value)) := by
        obtain ⟨_, _, _, _, rfl⟩ := h'
        exact ⟨_, _, _, _, rfl⟩
      have hanswer : ∀ s : LRUCache, ∀ commFd seqNum, Alike s
          (if s.isPrimary then s.servermsg "+OK File renamed\r\n" commFd
            else s.send commFd ("DONE ".toList ++ user ++ ',' :: toStr seqNum ++ "\r\n".toList)) := by
        intro s commFd seqNum
        split
        · exact alike_send ..
        · exact alike_send ..
      exact (hanswer _ _ _).symm.trans (hmoved.trans (hanswer _ _ _))

end PennCloud.LRUCache
