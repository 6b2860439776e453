import PennCloud.Kv.Proof.Integers
import PennCloud.Lib.Run
import Mathlib.Data.List.Induction

/-!
# Chunk files

Chunk files only grow, so what a record inside a file shows is there for good. A row that fits into
what is left of the current chunk becomes one record at the end of the file, as long as the counter
`chunk_info[type][1]` is the length of that file. The counter is not set back when a new chunk begins:
only the first chunk of a series is described by its records.
-/

namespace PennCloud.LRUCache

open Std

/-! ### Writing touches nothing but chunks -/

/-- What writing one user's row leaves alone. -/
structure ChunkStep (type : ChunkType) (user : Str) (s s' : LRUCache) : Prop where
  capacity : s'.capacity = s.capacity
  memoryUsed : s'.memoryUsed = s.memoryUsed
  heap : s'.heap = s.heap
  nodes : s'.nodes = s.nodes
  tablets : s'.tablets = s.tablets
  userSize : s'.userSize = s.userSize
  isPrimary : s'.isPrimary = s.isPrimary
  sent : s'.sent = s.sent
  records : ∀ u, u ≠ user → (s'.metaOf type)[u]? = (s.metaOf type)[u]?
  otherRecords : ∀ t, t ≠ type → s'.metaOf t = s.metaOf t
  otherInfo : ∀ t, t ≠ type → s'.chunkInfo t = s.chunkInfo t
  infoLength : (s'.chunkInfo type).length = (s.chunkInfo type).length
  otherFiles : ∀ dir, dir ≠ type.dir → s'.disk.files dir = s.disk.files dir
  log : s'.disk.log = s.disk.log

namespace ChunkStep

variable {type : ChunkType} {user : Str} {s s' s'' : LRUCache}

theorem refl : ChunkStep type user s s :=
  ⟨rfl, rfl, rfl, rfl, rfl, rfl, rfl, rfl, fun _ _ => rfl, fun _ _ => rfl, fun _ _ => rfl, rfl,
    fun _ _ => rfl, rfl⟩

theorem trans (h : ChunkStep type user s s') (h' : ChunkStep type user s' s'') :
    ChunkStep type user s s'' where
  capacity := h'.capacity.trans h.capacity
  memoryUsed := h'.memoryUsed.trans h.memoryUsed
  heap := h'.heap.trans h.heap
  nodes := h'.nodes.trans h.nodes
  tablets := h'.tablets.trans h.tablets
  userSize := h'.userSize.trans h.userSize
  isPrimary := h'.isPrimary.trans h.isPrimary
  sent := h'.sent.trans h.sent
  records u hu := (h'.records u hu).trans (h.records u hu)
  otherRecords t ht := (h'.otherRecords t ht).trans (h.otherRecords t ht)
  otherInfo t ht := (h'.otherInfo t ht).trans (h.otherInfo t ht)
  infoLength := h'.infoLength.trans h.infoLength
  otherFiles dir hdir := (h'.otherFiles dir hdir).trans (h.otherFiles dir hdir)
  log := h'.log.trans h.log

end ChunkStep

section Steps

variable {type : ChunkType} {user : Str} {s s' : LRUCache}

@[simp]
theorem metaOf_setMeta (records : Map Records) : (s.setMeta type records).metaOf type = records := by
  cases type <;> rfl

theorem metaOf_setMeta_of_ne {t : ChunkType} (ht : t ≠ type) (records : Map Records) :
    (s.setMeta type records).metaOf t = s.metaOf t := by
  cases type <;> cases t <;> first | rfl | exact absurd rfl ht

theorem chunkStep_setMeta {records : Map Records}
    (hrecords : ∀ u, u ≠ user → records[u]? = (s.metaOf type)[u]?) :
    ChunkStep type user s (s.setMeta type records) := by
  refine ⟨?_, ?_, ?_, ?_, ?_, ?_, ?_, ?_, ?_, ?_, ?_, ?_, ?_, ?_⟩
  case refine_9 => exact fun u hu => by rw [metaOf_setMeta, hrecords u hu]
  case refine_10 => exact fun t ht => metaOf_setMeta_of_ne ht records
  all_goals cases type <;> first | rfl | exact fun _ _ => rfl

theorem chunkStep_clearMetadata : ChunkStep type user s (s.clearMetadata type user) := by
  refine chunkStep_setMeta fun u hu => ?_
  rw [SortedMap.getElem?_erase_eq, if_neg (Ne.symm hu)]

theorem chunkStep_setChunkInfo {v : List Int} (hv : v.length = (s.chunkInfo type).length) :
    ChunkStep type user s { s with chunkInfo := Function.update s.chunkInfo type v } :=
  { ChunkStep.refl (s := s) with
    otherInfo := fun _ ht => Function.update_of_ne ht v s.chunkInfo
    infoLength := (congrArg List.length (Function.update_self type v s.chunkInfo)).trans hv }

theorem chunkStep_append (name value : Str) :
    ChunkStep type user s (s.act (.append type.dir name value)) :=
  { ChunkStep.refl (s := s) with
    otherFiles := fun _ hdir => Function.update_of_ne hdir _ s.disk.files }

theorem chunkStep_nextChunk (hrun : s.nextChunk type = .ok s') : ChunkStep type user s s' := by
  obtain ⟨chunk, _, hs'⟩ := Run.bind_eq_ok.mp hrun
  obtain rfl := Except.ok.inj hs'
  exact chunkStep_setChunkInfo List.length_set

theorem chunkStep_updateMetadata {str : Str} {size : Int}
    (hrun : s.updateMetadata type user str size = .ok s') : ChunkStep type user s s' := by
  obtain ⟨chunk, _, hrun⟩ := Run.bind_eq_ok.mp hrun
  obtain ⟨start, _, hrun⟩ := Run.bind_eq_ok.mp hrun
  obtain rfl := Except.ok.inj hrun
  refine ((chunkStep_append _ _).trans (chunkStep_setMeta fun u hu => ?_)).trans
    (chunkStep_setChunkInfo ?_)
  · rw [SortedMap.getElem?_insert_eq, if_neg (Ne.symm hu)]
  · cases type <;> exact List.length_set

theorem chunkStep_writePiece {row : Str} {left : Int} {needed i : Nat} {start : Int}
    {result : LRUCache × Int}
    (hrun : writePiece type user row left needed (s, start) i = .ok result) :
    ChunkStep type user s result.1 := by
  simp only [writePiece] at hrun
  split at hrun
  · obtain ⟨piece, _, hrun⟩ := Run.bind_eq_ok.mp hrun
    obtain ⟨t, hupdate, hrun⟩ := Run.bind_eq_ok.mp hrun
    obtain rfl := Except.ok.inj hrun
    exact chunkStep_updateMetadata hupdate
  · split at hrun
    all_goals
      obtain ⟨piece, _, hrun⟩ := Run.bind_eq_ok.mp hrun
      obtain ⟨t, hnext, hrun⟩ := Run.bind_eq_ok.mp hrun
      obtain ⟨t', hupdate, hrun⟩ := Run.bind_eq_ok.mp hrun
      obtain rfl := Except.ok.inj hrun
      exact (chunkStep_nextChunk hnext).trans (chunkStep_updateMetadata hupdate)

theorem chunkStep_writeToChunkWith {round : Nat → Nat} {row : Str}
    (hrun : s.writeToChunkWith round user row type = .ok s') : ChunkStep type user s s' := by
  obtain ⟨fill, _, hrun⟩ := Run.bind_eq_ok.mp hrun
  refine chunkStep_clearMetadata.trans ?_
  split at hrun
  · exact chunkStep_updateMetadata hrun
  · obtain ⟨⟨t, start⟩, hfold, hrun⟩ := Run.bind_eq_ok.mp hrun
    obtain rfl := Except.ok.inj hrun
    have hstart : ChunkStep type user (s.clearMetadata type user) (s.clearMetadata type user) :=
      ChunkStep.refl
    refine Run.foldlM_invariant
      (P := fun r : LRUCache × Int => ChunkStep type user (s.clearMetadata type user) r.1)
      ?_ hstart hfold
    rintro ⟨t, start⟩ i result _ hstep hpiece
    exact hstep.trans (chunkStep_writePiece hpiece)

end Steps

/-! ### A row that fits -/

/-- The current chunk of a series and the length of its file. -/
structure ChunkAt (s : LRUCache) (type : ChunkType) (chunk fill : Int) : Prop where
  info : s.chunkInfo type = [chunk, fill]
  length : ((s.disk.content type.dir (chunkName chunk)).length : Int) = fill

/-- The state after a row has become one record at the end of the current chunk. -/
def appendRow (s : LRUCache) (type : ChunkType) (user row : Str) (chunk fill : Int) : LRUCache :=
  let s := (s.act (.append type.dir (chunkName chunk) row)).setMeta type
    ((s.metaOf type).insert user [[chunk, fill, (row.length : Int)]])
  { s with chunkInfo := Function.update s.chunkInfo type [chunk, fill + row.length] }

section Fits

variable {type : ChunkType} {user row : Str} {s s' : LRUCache} {chunk fill : Int}

theorem updateMetadata_cleared (hinfo : s.chunkInfo type = [chunk, fill])
    (hend : toInt32 (fill + row.length) = fill + row.length) :
    (s.clearMetadata type user).updateMetadata type user row row.length =
      .ok (s.appendRow type user row chunk fill) := by
  have hcleared : (s.clearMetadata type user).chunkInfo type = [chunk, fill] := by
    rw [← hinfo]
    cases type <;> rfl
  cases type <;>
    simp [updateMetadata, hinfo, hend, atIdx, bind, Except.bind, appendRow, clearMetadata, setMeta, metaOf, act,
      ChunkType.dir, SortedMap.insert_erase] at hcleared ⊢

theorem writeToChunkWith_fits {round : Nat → Nat} (hinfo : s.chunkInfo type = [chunk, fill])
    (hfill : 0 ≤ fill) (hrow : fill + row.length ≤ chunkSize) :
    s.writeToChunkWith round user row type = .ok (s.appendRow type user row chunk fill) := by
  have hcleared : (s.clearMetadata type user).chunkInfo type = [chunk, fill] := by
    rw [← hinfo]
    cases type <;> rfl
  have hmax : (chunkSize : Int) ≤ intMax := by decide
  have hspace : row.length ≤ toSize (chunkSize - fill) := by
    rw [toSize_of_nonneg (by omega) (by omega)]
    omega
  have hend : toInt32 (fill + row.length) = fill + row.length :=
    toInt32_of_range (by simp only [intMax]; omega) (by omega)
  rw [writeToChunkWith]
  simp only [hcleared, atIdx, List.getElem?_cons_succ, List.getElem?_cons_zero, Run.ok_bind]
  rw [if_pos hspace, updateMetadata_cleared hinfo hend]

end Fits

/-! ### Rows that stay readable -/

/-- The records of `user` are one record, and the chunk file has `row` there. -/
def Recorded (s : LRUCache) (type : ChunkType) (user row : Str) : Prop :=
  ∃ (chunk : Int) (front back : Str),
    (s.metaOf type)[user]? = some [[chunk, (front.length : Int), (row.length : Int)]] ∧
      (s.disk.files type.dir)[chunkName chunk]? = some (front ++ row ++ back)

section Recorded

variable {type : ChunkType} {user other row row' : Str} {s : LRUCache} {chunk fill : Int}

theorem readAt_append (front row back : Str) :
    Disk.readAt (some (front ++ row ++ back)) front.length row.length = .ok row := by
  have htake : ((front ++ row ++ back).drop front.length).take row.length = row := by
    rw [List.append_assoc, List.drop_left, List.take_left]
  have hrow : ¬ (row.length : Int) < 0 := by omega
  have hfront : ¬ (front.length : Int) < 0 := by omega
  rw [Disk.readAt, if_neg hrow, if_neg hfront, Int.toNat_natCast, Int.toNat_natCast, htake]
  simp

theorem Recorded.readRow (h : s.Recorded type user row) :
    LRUCache.readRow s.disk type ((s.metaOf type).getD user []) = .ok row := by
  obtain ⟨chunk, front, back, hmeta, hfile⟩ := h
  have hrecords : (s.metaOf type).getD user [] =
      [[chunk, (front.length : Int), (row.length : Int)]] := by
    rw [ExtTreeMap.getD_eq_getD_getElem?, hmeta]
    rfl
  rw [LRUCache.readRow, hrecords]
  simp only [List.foldlM_cons, List.foldlM_nil, atIdx, List.getElem?_cons_zero,
    List.getElem?_cons_succ, Run.ok_bind, hfile, readAt_append]
  rfl

theorem appendRow_file (name : Str) :
    ((s.appendRow type user row chunk fill).disk.files type.dir)[name]? =
      if chunkName chunk = name then some (s.disk.content type.dir (chunkName chunk) ++ row)
      else (s.disk.files type.dir)[name]? := by
  have hfiles : (s.appendRow type user row chunk fill).disk.files type.dir =
      (s.disk.files type.dir).insert (chunkName chunk)
        (s.disk.content type.dir (chunkName chunk) ++ row) := by
    cases type <;> rfl
  rw [hfiles, SortedMap.getElem?_insert_eq]

theorem appendRow_metaOf (u : Str) :
    ((s.appendRow type user row chunk fill).metaOf type)[u]? =
      if user = u then some [[chunk, fill, (row.length : Int)]] else (s.metaOf type)[u]? := by
  have hrecords : (s.appendRow type user row chunk fill).metaOf type =
      (s.metaOf type).insert user [[chunk, fill, (row.length : Int)]] := by
    cases type <;> rfl
  rw [hrecords, SortedMap.getElem?_insert_eq]

theorem chunkAt_appendRow (h : s.ChunkAt type chunk fill) :
    (s.appendRow type user row chunk fill).ChunkAt type chunk (fill + row.length) := by
  refine ⟨Function.update_self _ _ _, ?_⟩
  rw [Disk.content, ExtTreeMap.getD_eq_getD_getElem?, appendRow_file, if_pos rfl,
    Option.getD_some, List.length_append, Int.natCast_add, h.length]

theorem recorded_appendRow (h : s.ChunkAt type chunk fill) :
    (s.appendRow type user row chunk fill).Recorded type user row := by
  refine ⟨chunk, s.disk.content type.dir (chunkName chunk), [], ?_, ?_⟩
  · rw [appendRow_metaOf, if_pos rfl, h.length]
  · rw [appendRow_file, if_pos rfl, List.append_nil]

/-- So can the rows of the others, since files only grow. -/
theorem Recorded.appendRow (h : s.Recorded type other row') (hne : user ≠ other) :
    (s.appendRow type user row chunk fill).Recorded type other row' := by
  obtain ⟨chunk', front, back, hmeta, hfile⟩ := h
  by_cases hchunk : chunkName chunk = chunkName chunk'
  · refine ⟨chunk', front, back ++ row, ?_, ?_⟩
    · rw [appendRow_metaOf, if_neg hne, hmeta]
    · have hcontent : s.disk.content type.dir (chunkName chunk) = front ++ row' ++ back := by
        rw [Disk.content, ExtTreeMap.getD_eq_getD_getElem?, hchunk, hfile, Option.getD_some]
      rw [appendRow_file, if_pos hchunk, hcontent, List.append_assoc]
  · refine ⟨chunk', front, back, ?_, ?_⟩
    · rw [appendRow_metaOf, if_neg hne, hmeta]
    · rw [appendRow_file, if_neg hchunk, hfile]

end Recorded

/-! ### A series of writes -/

/-- One `write_to_chunk` after another. -/
def writeAll (s : LRUCache) (type : ChunkType) (writes : List (Str × Str)) : Except Fault LRUCache :=
  writes.foldlM (fun s write => s.writeToChunk write.1 write.2 type) s

/-- The row last written for each user. -/
def lastWritten (writes : List (Str × Str)) : Map Str :=
  writes.foldl (fun rows write => rows.insert write.1 write.2) ∅

def totalLength (writes : List (Str × Str)) : Nat := (writes.map fun write => write.2.length).sum

theorem lastWritten_concat (writes : List (Str × Str)) (write : Str × Str) :
    lastWritten (writes ++ [write]) = (lastWritten writes).insert write.1 write.2 := by
  rw [lastWritten, List.foldl_append, lastWritten]
  rfl

section Series

variable {type : ChunkType} {s : LRUCache}

/-- The actions that append rows to the first chunk of a series. -/
def rowAppends (type : ChunkType) (writes : List (Str × Str)) : List FsAction :=
  writes.map fun write => .append type.dir (chunkName 0) write.2

/-- What a series of writes that stays within the first chunk leaves: every row can be read, and a user whose records are
not those from before has one record, of the row last written. -/
structure WrittenAll (type : ChunkType) (writes : List (Str × Str)) (s s' : LRUCache) : Prop where
  chunk : s'.ChunkAt type 0 (totalLength writes)
  recorded : ∀ user row : Str, (lastWritten writes)[user]? = some row → s'.Recorded type user row
  shape : ∀ (user : Str) records, (s'.metaOf type)[user]? = some records → (s.metaOf type)[user]? = some records ∨
    ∃ (row : Str) (start : Nat), (lastWritten writes)[user]? = some row ∧ records = [[0, (start : Int), (row.length : Int)]] ∧
      start + row.length ≤ totalLength writes
  syscalls : s'.syscalls = s.syscalls ++ rowAppends type writes
  disk : s'.disk = (rowAppends type writes).foldl Disk.apply s.disk

theorem exists_writeAll (hinfo : s.chunkInfo type = [0, 0]) (hfiles : s.disk.files type.dir = ∅)
    (writes : List (Str × Str)) (hfit : totalLength writes ≤ chunkSize) :
    ∃ s', s.writeAll type writes = .ok s' ∧ WrittenAll type writes s s' := by
  induction writes using List.reverseRecOn with
  | nil =>
      refine ⟨s, rfl, ⟨hinfo, ?_⟩, fun user row hwritten => ?_, fun user records hrecords => Or.inl hrecords,
        (List.append_nil _).symm, rfl⟩
      · rw [Disk.content, hfiles]
        simp [totalLength]
      · simp [lastWritten] at hwritten
  | append_singleton writes write ih =>
      have htotal : totalLength (writes ++ [write]) = totalLength writes + write.2.length := by
        simp [totalLength]
      have happends : rowAppends type (writes ++ [write]) =
          rowAppends type writes ++ [.append type.dir (chunkName 0) write.2] := List.map_append
      obtain ⟨t, hrun, ht⟩ := ih (by omega)
      have hwrite : t.writeToChunk write.1 write.2 type =
          .ok (t.appendRow type write.1 write.2 0 (totalLength writes)) :=
        writeToChunkWith_fits ht.chunk.info (by omega) (by omega)
      refine ⟨t.appendRow type write.1 write.2 0 (totalLength writes), ?_, ?_, ?_, ?_, ?_, ?_⟩
      · rw [writeAll] at hrun ⊢
        rw [List.foldlM_append, hrun, Run.ok_bind, List.foldlM_cons, hwrite]
        rfl
      · rw [htotal, Int.natCast_add]
        exact chunkAt_appendRow ht.chunk
      · intro user row hwritten
        rw [lastWritten_concat, SortedMap.getElem?_insert_eq] at hwritten
        by_cases huser : write.1 = user
        · rw [if_pos huser] at hwritten
          obtain rfl := Option.some.inj hwritten
          exact huser ▸ recorded_appendRow ht.chunk
        · rw [if_neg huser] at hwritten
          exact (ht.recorded user row hwritten).appendRow huser
      · intro user records hrecords
        rw [appendRow_metaOf] at hrecords
        rw [lastWritten_concat, SortedMap.getElem?_insert_eq]
        split at hrecords
        · next huser => exact Or.inr ⟨write.2, totalLength writes, if_pos huser, (Option.some.inj hrecords).symm, by omega⟩
        · next huser =>
            refine (ht.shape user records hrecords).imp_right ?_
            rintro ⟨row, start, hwritten, hrecords, hend⟩
            exact ⟨row, start, by rw [if_neg huser, hwritten], hrecords, by omega⟩
      · rw [happends, ← List.append_assoc, ← ht.syscalls]
        cases type <;> rfl
      · rw [happends, List.foldl_append, ← ht.disk]
        cases type <;> rfl

/-- While all rows written so far fit into the first chunk, every user's records give the row last
written for that user. -/
theorem readRow_writeAll (hinfo : s.chunkInfo type = [0, 0]) (hfiles : s.disk.files type.dir = ∅)
    (writes : List (Str × Str)) (hfit : totalLength writes ≤ chunkSize) :
    ∃ s', s.writeAll type writes = .ok s' ∧
      ∀ user row : Str, (lastWritten writes)[user]? = some row →
        readRow s'.disk type ((s'.metaOf type).getD user []) = .ok row := by
  obtain ⟨s', hrun, hs'⟩ := exists_writeAll hinfo hfiles writes hfit
  exact ⟨s', hrun, fun user row hwritten => (hs'.recorded user row hwritten).readRow⟩

theorem readRow_writeAll_two_users :
    ∃ s', (fresh 10 true).writeAll .checkpointing [("u".toList, "a,b,".toList), ("v".toList, "c,d,".toList)]
        = .ok s' ∧
      ∀ user row : Str,
        (lastWritten [("u".toList, "a,b,".toList), ("v".toList, "c,d,".toList)])[user]? = some row →
        readRow s'.disk .checkpointing ((s'.metaOf .checkpointing).getD user []) = .ok row :=
  readRow_writeAll rfl rfl _ (by decide)

end Series

/-! ### One byte too many -/

section Crossing

variable {user row : Str} {s : LRUCache} {chunk : Int}

theorem chunkNeeded_one : chunkNeeded toFloat 1 = 2 := by
  have hround : toFloat 1 = 1 := by decide
  rw [chunkNeeded, hround, Nat.add_sub_cancel_left, Nat.div_self (by decide)]

theorem toSize_chunkSize : toSize chunkSize = chunkSize := by
  have hmax : (chunkSize : Int) ≤ intMax := by decide
  rw [toSize_of_nonneg (by omega) hmax, Int.toNat_natCast]

/-- A row one byte longer than a chunk, written into an empty one, becomes two records. The second
starts where the first ended, in a file where nothing stands there. -/
theorem writeToChunk_crossing {type : ChunkType} (hinfo : s.chunkInfo type = [chunk, 0])
    (hrow : row.length = chunkSize + 1) :
    s.writeToChunk user row type = (do
      let s ← (s.clearMetadata type user).updateMetadata type user (row.take chunkSize) chunkSize
      let s ← s.nextChunk type
      s.updateMetadata type user (row.drop chunkSize) 1) := by
  have hcleared : (s.clearMetadata type user).chunkInfo type = [chunk, 0] := by
    rw [← hinfo]
    cases type <;> rfl
  have hspace : ¬ row.length ≤ toSize (chunkSize - 0) := by
    rw [Int.sub_zero, toSize_chunkSize]
    omega
  have hleft : row.length - ((chunkSize : Int) - 0).toNat = 1 := by
    rw [Int.sub_zero, Int.toNat_natCast]
    omega
  have hrest : (row.length : Int) - chunkSize = 1 := by omega
  have hfirst : substr row (toSize 0) (toSize chunkSize) = .ok (row.take chunkSize) := by
    rw [substr, toSize_chunkSize, if_neg (by simp [toSize])]
    rfl
  have hsecond : substr row (toSize chunkSize) (toSize 1) = .ok (row.drop chunkSize) := by
    have hone : toSize 1 = 1 := by decide
    rw [substr, toSize_chunkSize, if_neg (by omega), hone, List.take_of_length_le]
    rw [List.length_drop]
    omega
  rw [writeToChunk, writeToChunkWith]
  simp only [hcleared, atIdx, List.getElem?_cons_succ, List.getElem?_cons_zero, Run.ok_bind]
  rw [if_neg hspace, hleft, chunkNeeded_one, Int.sub_zero]
  simp only [List.range_succ, List.range_zero, List.nil_append, List.cons_append, List.foldlM_cons,
    List.foldlM_nil, writePiece, if_pos, hrest, hfirst, hsecond, Run.ok_bind, bind_assoc]
  cases (s.clearMetadata type user).updateMetadata type user (row.take chunkSize) chunkSize with
  | error e => rfl
  | ok t =>
      simp only [Run.ok_bind, Nat.one_ne_zero, if_false]
      cases t.nextChunk type with
      | error e => rfl
      | ok t' =>
          simp only [Run.ok_bind]
          cases t'.updateMetadata type user (row.drop chunkSize) 1 <;> rfl

theorem fresh_two_pieces (first second : Str) {n : Int} (hn : toInt32 n = n) :
    ∃ s', (do
        let s ← ((fresh 10 true).clearMetadata .checkpointing "u".toList).updateMetadata .checkpointing
          "u".toList first n
        let s ← s.nextChunk .checkpointing
        s.updateMetadata .checkpointing "u".toList second 1) = .ok s' ∧
      s'.cpMeta["u".toList]? = some [[0, 0, n], [1, n, 1]] ∧
      (s'.disk.files .checkpointing)[chunkName 0]? = some first ∧
      (s'.disk.files .checkpointing)[chunkName 1]? = some second := by
  have hfirst : chunkName 0 = "chunk0".toList := by decide
  have hsecond : chunkName 1 = "chunk1".toList := by decide
  refine ⟨_, rfl, ?_, ?_, ?_⟩
  · simp [fresh, init, clearMetadata, setMeta, metaOf, act, hn]
  · simp [fresh, init, clearMetadata, setMeta, act, Disk.apply, Disk.setFiles, Disk.content, Disk.empty,
      ChunkType.dir, hfirst, hsecond, ExtTreeMap.getElem_insert]
  · simp [fresh, init, clearMetadata, setMeta, act, Disk.apply, Disk.setFiles, Disk.content, Disk.empty,
      ChunkType.dir, hfirst, hsecond, ExtTreeMap.getD_insert]

theorem readAt_behind {bytes : Str} {start : Nat} (hstart : bytes.length ≤ start) :
    Disk.readAt (some bytes) start 1 = .ok ['\x00'] := by
  have hnonneg : ¬ (start : Int) < 0 := by omega
  rw [Disk.readAt, if_neg (by decide), if_neg hnonneg, Int.toNat_natCast, List.drop_of_length_le hstart,
    List.take_nil]
  rfl

/-- The row is written, but its records show another one. -/
theorem readRow_writeAll_crossing :
    ¬ ∀ writes : List (Str × Str),
      ∃ s', (fresh 10 true).writeAll .checkpointing writes = .ok s' ∧
        ∀ user row : Str, (lastWritten writes)[user]? = some row →
          readRow s'.disk .checkpointing ((s'.metaOf .checkpointing).getD user []) = .ok row := by
  intro hread
  have hrow : ∃ row : Str, row.length = chunkSize + 1 ∧ '\x00' ∉ row := by
    refine ⟨List.replicate (chunkSize + 1) 'x', List.length_replicate, ?_⟩
    rw [List.mem_replicate]
    exact fun h => absurd h.2 (by decide)
  obtain ⟨row, hlength, hnul⟩ := hrow
  obtain ⟨s', hrun, hrow⟩ := hread [("u".toList, row)]
  obtain ⟨t, hwrite, hrecords, hfirst, hsecond⟩ :=
    fresh_two_pieces (row.take chunkSize) (row.drop chunkSize) (by decide : toInt32 chunkSize = chunkSize)
  have hst : t = s' := by
    rw [← writeToChunk_crossing rfl hlength] at hwrite
    rw [writeAll, List.foldlM_cons, hwrite] at hrun
    exact Except.ok.inj hrun
  subst hst
  have hread := hrow "u".toList row (by simp [lastWritten])
  have htake : (row.take chunkSize).length = chunkSize := by
    rw [List.length_take]
    omega
  have hdrop : (row.drop chunkSize).length ≤ chunkSize := by
    have hpos : 1 ≤ chunkSize := by decide
    rw [List.length_drop]
    omega
  have hpiece : Disk.readAt (some (row.take chunkSize)) 0 chunkSize = .ok (row.take chunkSize) := by
    have happend := readAt_append [] (row.take chunkSize) []
    rwa [htake, List.nil_append, List.append_nil] at happend
  have hgot : readRow t.disk .checkpointing ((t.metaOf .checkpointing).getD "u".toList []) =
      .ok (row.take chunkSize ++ ['\x00']) := by
    have hmeta : (t.metaOf .checkpointing).getD "u".toList [] =
        [[0, 0, (chunkSize : Int)], [1, chunkSize, 1]] := by
      rw [ExtTreeMap.getD_eq_getD_getElem?]
      exact congrArg (Option.getD · []) hrecords
    rw [readRow, hmeta]
    simp only [List.foldlM_cons, List.foldlM_nil, atIdx, List.getElem?_cons_zero,
      List.getElem?_cons_succ, Run.ok_bind, ChunkType.dir, hfirst, hsecond, hpiece, readAt_behind hdrop]
    rfl
  rw [hgot] at hread
  have hmem : '\x00' ∈ row := by
    rw [← Except.ok.inj hread]
    exact List.mem_append_right _ (List.mem_singleton.mpr rfl)
  exact hnul hmem

end Crossing

end PennCloud.LRUCache
