import PennCloud.Kv.Proof.Pieces

/-!
# The pieces of a row

With the number of chunks not rounded, `write_to_chunk` cuts a row into the space left in the current chunk, whole chunks, and a
last piece, and each of them becomes a record of its own chunk.
-/

namespace PennCloud.LRUCache

variable {s t : LRUCache} {type : ChunkType} {user row piece : Str} {pieces : List Str} {chunk fill : Int}

/-- The pieces as they are appended, from a chunk on. -/
def appendsOf (type : ChunkType) (chunk : Int) : List Str → List FsAction
  | [] => []
  | piece :: pieces => .append type.dir (chunkName chunk) piece :: appendsOf type (chunk + 1) pieces

/-- The records of the pieces: the chunk, where the piece starts, and its length. -/
def recordsOf (chunk fill : Int) : List Str → Records
  | [] => []
  | piece :: pieces => [chunk, fill, (piece.length : Int)] :: recordsOf (chunk + 1) (toInt32 (fill + piece.length)) pieces

theorem appendsOf_concat (type : ChunkType) (chunk : Int) (pieces : List Str) (piece : Str) :
    appendsOf type chunk (pieces ++ [piece]) =
      appendsOf type chunk pieces ++ [.append type.dir (chunkName (chunk + pieces.length)) piece] := by
  induction pieces generalizing chunk with
  | nil => rw [List.nil_append, appendsOf, appendsOf, appendsOf, List.length_nil, Int.natCast_zero, Int.add_zero, List.nil_append]
  | cons piece' pieces ih =>
      rw [List.cons_append, appendsOf, ih, appendsOf, List.length_cons, List.cons_append]
      have hchunk : chunk + 1 + (pieces.length : Int) = chunk + (pieces.length + 1 : Nat) := by
        push_cast
        omega
      rw [hchunk]

theorem recordsOf_concat (chunk : Int) (hfill : toInt32 fill = fill) (pieces : List Str) (piece : Str) :
    recordsOf chunk fill (pieces ++ [piece]) =
      recordsOf chunk fill pieces ++ [[chunk + pieces.length, toInt32 (fill + pieces.flatten.length), (piece.length : Int)]] := by
  induction pieces generalizing chunk fill with
  | nil => simp [recordsOf, hfill]
  | cons piece' pieces ih =>
      rw [List.cons_append, recordsOf, ih _ (toInt32_toInt32 _), recordsOf, List.length_cons, List.flatten_cons, List.length_append,
        List.cons_append]
      have hchunk : chunk + 1 + (pieces.length : Int) = chunk + (pieces.length + 1 : Nat) := by
        push_cast
        omega
      have hsum : fill + piece'.length + (pieces.flatten.length : Int) = fill + (piece'.length + pieces.flatten.length : Nat) := by
        push_cast
        omega
      rw [hchunk, toInt32_add_toInt32, hsum]

/-- The pieces have been appended and recorded, the last of them in the current chunk. -/
structure Wrote (s : LRUCache) (type : ChunkType) (user : Str) (chunk fill : Int) (pieces : List Str) (t : LRUCache) : Prop where
  syscalls : t.syscalls = s.syscalls ++ appendsOf type chunk pieces
  records : (t.metaOf type)[user]? = some (recordsOf chunk fill pieces)
  info : t.chunkInfo type = [chunk + pieces.length - 1, toInt32 (fill + pieces.flatten.length)]

theorem exists_wrote_first (hinfo : s.chunkInfo type = [chunk, fill]) (hnone : (s.metaOf type)[user]? = none) (piece : Str) :
    ∃ t, s.updateMetadata type user piece piece.length = .ok t ∧ Wrote s type user chunk fill [piece] t := by
  obtain ⟨t, hrun, hinfo', hsyscalls, hrecords⟩ := exists_updateMetadata hinfo user piece piece.length
  refine ⟨t, hrun, hsyscalls, ?_, ?_⟩
  · rw [hrecords, Std.ExtTreeMap.getD_eq_getD_getElem?, hnone]
    rfl
  · rw [hinfo']
    simp

theorem Wrote.next (h : Wrote s type user chunk fill pieces t) (hfill : toInt32 fill = fill) (piece : Str) :
    ∃ t₁ t₂, t.nextChunk type = .ok t₁ ∧ t₁.updateMetadata type user piece piece.length = .ok t₂ ∧
      Wrote s type user chunk fill (pieces ++ [piece]) t₂ := by
  let t₁ : LRUCache :=
    { t with chunkInfo := Function.update t.chunkInfo type [chunk + pieces.length, toInt32 (fill + pieces.flatten.length)] }
  have hnext : t.nextChunk type = .ok t₁ := by
    have hchunk : chunk + (pieces.length : Int) - 1 + 1 = chunk + pieces.length := by omega
    rw [nextChunk, h.info]
    simp only [atIdx, List.getElem?_cons_zero, Run.ok_bind, List.set_cons_zero, hchunk]
    rfl
  have hmeta : t₁.metaOf type = t.metaOf type := by cases type <;> rfl
  have hinfo : t₁.chunkInfo type = [chunk + pieces.length, toInt32 (fill + pieces.flatten.length)] := Function.update_self ..
  obtain ⟨t₂, hupdate, hinfo', hsyscalls, hrecords⟩ := exists_updateMetadata hinfo user piece piece.length
  refine ⟨t₁, t₂, hnext, hupdate, ?_, ?_, ?_⟩
  · rw [hsyscalls, appendsOf_concat, ← List.append_assoc]
    exact congrArg (· ++ _) h.syscalls
  · rw [hrecords, hmeta, Std.ExtTreeMap.getD_eq_getD_getElem?, h.records, recordsOf_concat chunk hfill]
    rfl
  · have hsum : fill + (pieces.flatten.length : Int) + piece.length = fill + ((pieces ++ [piece]).flatten.length : Nat) := by
      simp
      omega
    have hlast : chunk + (pieces.length : Int) = chunk + ((pieces ++ [piece]).length : Nat) - 1 := by
      simp
      omega
    rw [hinfo', toInt32_add_toInt32, hsum, hlast]

/-! ### The loop -/

/-- The space that is left of a chunk, and whole chunks behind it. -/
def cutRow (left k : Nat) (row : Str) : List Str :=
  row.take left :: (List.range k).map fun i => (row.drop (left + i * chunkSize)).take chunkSize

theorem cutRow_succ (left k : Nat) (row : Str) :
    cutRow left (k + 1) row = cutRow left k row ++ [(row.drop (left + k * chunkSize)).take chunkSize] := by
  rw [cutRow, cutRow, List.range_succ, List.map_append, List.cons_append]
  rfl

theorem flatten_cutRow (left k : Nat) (row : Str) : (cutRow left k row).flatten = row.take (left + k * chunkSize) := by
  induction k with
  | zero => simp [cutRow]
  | succ k ih =>
      have hnext : left + (k + 1) * chunkSize = left + k * chunkSize + chunkSize := by rw [Nat.succ_mul, Nat.add_assoc]
      rw [cutRow_succ, List.flatten_append, ih, List.flatten_singleton, hnext, ← List.take_add]

theorem substr_take {pos len : Nat} (hpos : pos ≤ row.length) : substr row pos len = .ok ((row.drop pos).take len) := by
  rw [substr, if_neg (by omega)]

theorem exists_writePiece_first (hinfo : s.chunkInfo type = [chunk, fill]) (hnone : (s.metaOf type)[user]? = none)
    {left : Nat} (hleft : left ≤ row.length) (hrow : row.length < 2 ^ 31) (needed : Nat) :
    ∃ t, writePiece type user row left needed (s, 0) 0 = .ok (t, (left : Int)) ∧ Wrote s type user chunk fill (cutRow left 0 row) t := by
  obtain ⟨t, hupdate, hwrote⟩ := exists_wrote_first hinfo hnone (row.take left)
  rw [List.length_take_of_le hleft] at hupdate
  refine ⟨t, ?_, hwrote⟩
  rw [writePiece, toSize_of_lt (x := left) (by omega) (by omega), Int.toNat_natCast]
  rw [if_pos rfl, show toSize 0 = 0 by decide, substr_take (Nat.zero_le _), Run.ok_bind, List.drop_zero, hupdate]
  rfl

theorem Wrote.middle (h : Wrote s type user chunk fill pieces t) (hfill : toInt32 fill = fill) (left : Nat)
    {start needed i : Nat} (hi : i ≠ 0) (hlast : i ≠ needed - 1) (hstart : start + chunkSize ≤ row.length) (hrow : row.length < 2 ^ 31) :
    ∃ t', writePiece type user row left needed (t, (start : Int)) i = .ok (t', ((start + chunkSize : Nat) : Int)) ∧
      Wrote s type user chunk fill (pieces ++ [(row.drop start).take chunkSize]) t' := by
  obtain ⟨t₁, t₂, hnext, hupdate, hwrote⟩ := h.next hfill ((row.drop start).take chunkSize)
  rw [List.length_take_of_le (by rw [List.length_drop]; omega)] at hupdate
  refine ⟨t₂, ?_, hwrote⟩
  rw [writePiece, toSize_of_lt (x := start) (by omega) (by omega), Int.toNat_natCast]
  rw [if_neg hi, if_neg hlast, substr_take (by omega), Run.ok_bind, hnext, Run.ok_bind, hupdate]
  rfl

theorem Wrote.last (h : Wrote s type user chunk fill pieces t) (hfill : toInt32 fill = fill) (left : Nat)
    {start needed i : Nat} (hi : i ≠ 0) (hlast : i = needed - 1) (hstart : start ≤ row.length) (hrow : row.length < 2 ^ 31) :
    ∃ t', writePiece type user row left needed (t, (start : Int)) i = .ok (t', (start : Int)) ∧
      Wrote s type user chunk fill (pieces ++ [row.drop start]) t' := by
  obtain ⟨t₁, t₂, hnext, hupdate, hwrote⟩ := h.next hfill (row.drop start)
  have hlength : ((row.drop start).length : Int) = row.length - start := by
    rw [List.length_drop]
    omega
  rw [hlength] at hupdate
  refine ⟨t₂, ?_, hwrote⟩
  have hsize : toSize (row.length - start) = (row.drop start).length := by
    rw [← hlength, toSize_of_lt (by omega) (by rw [hlength]; omega), Int.toNat_natCast]
  rw [writePiece, toSize_of_lt (x := start) (by omega) (by omega), Int.toNat_natCast]
  rw [if_neg hi, if_pos hlast, hsize, substr_take hstart, List.take_length, Run.ok_bind, hnext, Run.ok_bind, hupdate]
  rfl

theorem exists_cutRow (hinfo : s.chunkInfo type = [chunk, fill]) (hfill : toInt32 fill = fill)
    (hnone : (s.metaOf type)[user]? = none) {left needed : Nat} (hrow : row.length < 2 ^ 31) (k : Nat) (hk : k + 1 < needed)
    (hinside : left + k * chunkSize ≤ row.length) : ∃ t, (List.range (k + 1)).foldlM
        (writePiece type user row left needed) (s, 0) = .ok (t, ((left + k * chunkSize : Nat) : Int)) ∧
      Wrote s type user chunk fill (cutRow left k row) t := by
  induction k with
  | zero =>
      obtain ⟨t, hfirst, hwrote⟩ := exists_writePiece_first hinfo hnone (show left ≤ row.length by omega) hrow needed
      refine ⟨t, ?_, hwrote⟩
      rw [List.range_succ, List.range_zero, List.nil_append, List.foldlM_cons, hfirst, Nat.zero_mul]
      rfl
  | succ k ih =>
      have hnext : left + (k + 1) * chunkSize = left + k * chunkSize + chunkSize := by rw [Nat.succ_mul, Nat.add_assoc]
      rw [hnext] at hinside ⊢
      obtain ⟨t, hfold, hwrote⟩ := ih (by omega) (by omega)
      obtain ⟨t', hpiece, hwrote'⟩ := hwrote.middle hfill left k.succ_ne_zero (show k + 1 ≠ needed - 1 by omega) hinside hrow
      refine ⟨t', ?_, cutRow_succ left k row ▸ hwrote'⟩
      rw [List.range_succ, List.foldlM_append, hfold, Run.ok_bind, List.foldlM_cons, hpiece]
      rfl

/-- The space that was left, whole chunks, and a last piece that is not empty. -/
def CutAt (left : Int) (pieces : List Str) : Prop :=
  ∃ first middle last, pieces = first :: (middle ++ [last]) ∧ (first.length : Int) = left ∧
    (∀ piece ∈ middle, piece.length = chunkSize) ∧ 1 ≤ last.length ∧ last.length ≤ chunkSize

theorem cutAt_cutRow {left k : Nat} (hlow : left + k * chunkSize < row.length) (hhigh : row.length ≤ left + (k + 1) * chunkSize) :
    CutAt left (cutRow left k row ++ [row.drop (left + k * chunkSize)]) := by
  refine ⟨row.take left, _, _, rfl, ?_, fun piece hpiece => ?_, ?_, ?_⟩
  · rw [List.length_take_of_le (by omega)]
  · obtain ⟨i, hi, rfl⟩ := List.mem_map.mp hpiece
    have hmul : (i + 1) * chunkSize ≤ k * chunkSize := Nat.mul_le_mul_right chunkSize (List.mem_range.mp hi)
    rw [Nat.succ_mul] at hmul
    rw [List.length_take_of_le]
    rw [List.length_drop]
    omega
  all_goals
    rw [List.length_drop]
    rw [Nat.succ_mul] at hhigh
    omega

/-- Writing a row cuts it into pieces, each recorded in a chunk of its own. -/
theorem writeToChunkWith_id (hinfo : s.chunkInfo type = [chunk, fill]) (hlow : 0 ≤ fill) (hhigh : fill ≤ chunkSize)
    (hrow : row.length < 2 ^ 31) (user : Str) :
    ∃ pieces t, s.writeToChunkWith id user row type = .ok t ∧ pieces.flatten = row ∧
      t.syscalls = s.syscalls ++ appendsOf type chunk pieces ∧ (t.metaOf type)[user]? = some (recordsOf chunk fill pieces) ∧
        (row.length ≤ chunkSize - fill → pieces = [row]) ∧ (chunkSize - fill < row.length → CutAt (chunkSize - fill) pieces) := by
  have hsize : chunkSize = 2 ^ 26 := by decide
  have hfill : toInt32 fill = fill := toInt32_of_range (by simp only [intMax]; omega) (by simp only [intMax]; omega)
  have hcleared : (s.clearMetadata type user).chunkInfo type = [chunk, fill] := by rw [clearMetadata_chunkInfo, hinfo]
  have hnone : ((s.clearMetadata type user).metaOf type)[user]? = none := by
    rw [clearMetadata, metaOf_setMeta, SortedMap.getElem?_erase_eq, if_pos rfl]
  have hsyscalls : (s.clearMetadata type user).syscalls = s.syscalls := by cases type <;> rfl
  obtain ⟨left, hleft⟩ := Int.eq_ofNat_of_zero_le (show 0 ≤ (chunkSize : Int) - fill by omega)
  rw [writeToChunkWith]
  simp only [hcleared, atIdx, List.getElem?_cons_succ, List.getElem?_cons_zero, Run.ok_bind]
  rw [hleft, toSize_of_lt (by omega) (by omega), Int.toNat_natCast]
  split
  · next hfits =>
      obtain ⟨t, hupdate, hwrote⟩ := exists_wrote_first hcleared hnone row
      refine ⟨[row], t, hupdate, List.flatten_singleton, hsyscalls ▸ hwrote.syscalls, hwrote.records, fun _ => rfl, fun hlarge => ?_⟩
      omega
  · next hlarge =>
      obtain ⟨k, hk⟩ : ∃ k, (row.length - left - 1) / chunkSize = k := ⟨_, rfl⟩
      have hneeded : chunkNeeded id (row.length - left) = k + 2 := by
        have hceil : row.length - left + chunkSize - 1 = row.length - left - 1 + chunkSize := by omega
        rw [chunkNeeded, id, hceil, Nat.add_div_right _ (by omega), hk]
      have hdiv := Nat.div_add_mod (row.length - left - 1) chunkSize
      have hmod := Nat.mod_lt (row.length - left - 1) (show 0 < chunkSize by omega)
      rw [hk, Nat.mul_comm] at hdiv
      obtain ⟨t, hfold, hwrote⟩ := exists_cutRow hcleared hfill hnone hrow k (show k + 1 < k + 2 by omega)
        (show left + k * chunkSize ≤ row.length by omega)
      obtain ⟨t', hlast, hwrote'⟩ := hwrote.last hfill left k.succ_ne_zero (show k + 1 = k + 2 - 1 by omega)
        (show left + k * chunkSize ≤ row.length by omega) hrow
      refine ⟨_, t', ?_, ?_, hsyscalls ▸ hwrote'.syscalls, hwrote'.records, fun hfits => absurd hfits (by omega), fun _ => ?_⟩
      · rw [hneeded, List.range_succ, List.foldlM_append, hfold, Run.ok_bind, List.foldlM_cons, hlast]
        rfl
      · rw [List.flatten_append, flatten_cutRow, List.flatten_singleton, List.take_append_drop]
      · exact cutAt_cutRow (by omega) (by rw [Nat.succ_mul]; omega)

/-- A chunk with one byte left. -/
theorem writeToChunkWith_id_full : ∃ pieces t,
    (init 0 true (fun _ => [3, chunkSize - 1]) Disk.empty).writeToChunkWith id "u".toList "ab".toList .virtualMemory = .ok t ∧
      pieces.flatten = "ab".toList ∧
        t.syscalls = (init 0 true (fun _ => [3, chunkSize - 1]) Disk.empty).syscalls ++ appendsOf .virtualMemory 3 pieces ∧
          (t.metaOf .virtualMemory)["u".toList]? = some (recordsOf 3 (chunkSize - 1) pieces) ∧
            (("ab".toList.length : Int) ≤ chunkSize - (chunkSize - 1) → pieces = ["ab".toList]) ∧
              ((chunkSize : Int) - (chunkSize - 1) < "ab".toList.length → CutAt (chunkSize - (chunkSize - 1)) pieces) :=
  writeToChunkWith_id rfl (by decide) (by decide) (by decide) "u".toList

end PennCloud.LRUCache
