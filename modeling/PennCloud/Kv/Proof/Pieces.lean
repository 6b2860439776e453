import PennCloud.Kv.Proof.Filled
import PennCloud.Kv.Proof.Integers

/-!
# A row of any length is written

A row that does not fit in the rest of the current chunk goes into several. The number of pieces is
computed in `float`s; below 2^50 bytes the rounding never asks for a piece behind the end of the row.
-/

namespace PennCloud.LRUCache

variable {s s' t : LRUCache} {type : ChunkType} {user row str : Str} {chunk fill size : Int}

theorem toSize_of_lt {x : Int} (hlow : 0 ≤ x) (hhigh : x < 2 ^ 64) : toSize x = x.toNat := by
  rw [toSize, Int.emod_eq_of_lt hlow hhigh]

/-! ### The number of pieces -/

/-- Rounding does not pass a multiple of the chunk size. -/
theorem toFloat_le {n k : Nat} (hn : n < 2 ^ 50) (hle : n ≤ k * chunkSize) : toFloat n ≤ k * chunkSize := by
  rw [toFloat]
  split
  · exact hle
  · next hlarge =>
      have hlog : n.log2 < 50 := (Nat.log2_lt (by omega)).mpr hn
      obtain ⟨m, hm⟩ : 2 ^ (n.log2 - 23) ∣ chunkSize := by
        have hpow : chunkSize = 2 ^ 26 := by decide
        rw [hpow]
        exact Nat.pow_dvd_pow 2 (by omega)
      have hpos : 0 < 2 ^ (n.log2 - 23) := Nat.two_pow_pos _
      dsimp only
      generalize 2 ^ (n.log2 - 23) = ulp at hm hpos ⊢
      rw [hm, Nat.mul_left_comm, Nat.mul_comm ulp] at hle ⊢
      have hquotient : n / ulp ≤ k * m := Nat.div_le_of_le_mul (Nat.mul_comm _ _ ▸ hle)
      split
      · exact Nat.mul_le_mul_right ulp hquotient
      · next hround =>
          have hrest : n % ulp ≠ 0 := by
            intro hzero
            exact hround (Or.inl (by omega))
          have hsplit := Nat.div_add_mod n ulp
          refine Nat.mul_le_mul_right ulp (Nat.lt_of_le_of_ne hquotient ?_)
          intro heq
          rw [heq, Nat.mul_comm] at hsplit
          omega

theorem chunkNeeded_le {n : Nat} (hn : n < 2 ^ 50) (hpos : 0 < n) : (chunkNeeded toFloat n - 2) * chunkSize ≤ n := by
  have hsize : 0 < chunkSize := by decide
  have hround : toFloat n ≤ ((n - 1) / chunkSize + 1) * chunkSize := by
    refine toFloat_le hn ?_
    have hsplit := Nat.div_add_mod (n - 1) chunkSize
    have hlt := Nat.mod_lt (n - 1) hsize
    rw [Nat.add_mul, Nat.one_mul, Nat.mul_comm]
    omega
  have hpieces : (toFloat n + chunkSize - 1) / chunkSize ≤ (n - 1) / chunkSize + 1 := by
    rw [← Nat.lt_succ_iff, Nat.div_lt_iff_lt_mul hsize, Nat.succ_mul]
    omega
  have hneeded : chunkNeeded toFloat n - 2 ≤ (n - 1) / chunkSize := by
    rw [chunkNeeded, Nat.sub_le_iff_le_add]
    exact Nat.succ_le_succ hpieces
  calc (chunkNeeded toFloat n - 2) * chunkSize ≤ (n - 1) / chunkSize * chunkSize :=
        Nat.mul_le_mul_right _ hneeded
    _ ≤ n - 1 := Nat.div_mul_le_self _ _
    _ ≤ n := Nat.sub_le _ _

/-! ### The pieces -/

theorem metaOf_act (a : FsAction) : (s.act a).metaOf type = s.metaOf type := by
  cases type <;> rfl

theorem exists_updateMetadata (hinfo : s.chunkInfo type = [chunk, fill]) (user str : Str) (size : Int) :
    ∃ t, s.updateMetadata type user str size = .ok t ∧ t.chunkInfo type = [chunk, toInt32 (fill + size)] ∧
      t.syscalls = s.syscalls ++ [.append type.dir (chunkName chunk) str] ∧
        (t.metaOf type)[user]? = some ((s.metaOf type).getD user [] ++ [[chunk, fill, size]]) := by
  have hacted : (s.act (.append type.dir (chunkName chunk) str)).chunkInfo type = [chunk, fill] := hinfo
  have hmeta (t : LRUCache) (records : Map Records) : (t.setMeta type records).chunkInfo = t.chunkInfo := by
    cases type <;> rfl
  have hsyscalls (t : LRUCache) (records : Map Records) : (t.setMeta type records).syscalls = t.syscalls := by
    cases type <;> rfl
  have hrecords (t : LRUCache) (records : Map Records) (info : ChunkType → List Int) :
      ({ t.setMeta type records with chunkInfo := info } : LRUCache).metaOf type = records := by
    cases type <;> rfl
  rw [updateMetadata, hinfo]
  simp only [atIdx, List.getElem?_cons_succ, List.getElem?_cons_zero, Run.ok_bind, hacted, hmeta]
  refine ⟨_, rfl, Function.update_self .., hsyscalls _ _, ?_⟩
  rw [hrecords, SortedMap.getElem?_insert_eq, if_pos rfl, metaOf_act]

theorem exists_nextChunk (hinfo : s.chunkInfo type = [chunk, fill]) :
    ∃ t, s.nextChunk type = .ok t ∧ t.chunkInfo type = [chunk + 1, fill] := by
  rw [nextChunk, hinfo]
  exact ⟨_, rfl, Function.update_self ..⟩

theorem exists_firstPiece (hinfo : s.chunkInfo type = [chunk, fill]) (user row : Str) (left : Int) (needed : Nat) :
    ∃ t, writePiece type user row left needed (s, 0) 0 = .ok (t, left) ∧
      t.chunkInfo type = [chunk, toInt32 (fill + left)] := by
  have hpiece : substr row (toSize 0) (toSize left) = .ok ((row.drop 0).take (toSize left)) := by
    rw [substr, show toSize 0 = 0 by decide, if_neg (Nat.not_lt_zero _)]
  obtain ⟨t, hupdate, hinfo', _, _⟩ := exists_updateMetadata hinfo user ((row.drop 0).take (toSize left)) left
  refine ⟨t, ?_, hinfo'⟩
  simp only [writePiece, if_true]
  rw [hpiece, Run.ok_bind, hupdate]
  rfl

theorem exists_writePiece (hinfo : s.chunkInfo type = [chunk, fill]) (user : Str) (left : Int) (needed : Nat)
    {start i : Nat} (hstart : start ≤ row.length) (hrow : row.length < 2 ^ 64) (hi : i ≠ 0) :
    ∃ t, writePiece type user row left needed (s, (start : Int)) i =
        .ok (t, if i = needed - 1 then (start : Int) else (start : Int) + chunkSize) ∧
      t.chunkInfo type =
        [chunk + 1, toInt32 (fill + if i = needed - 1 then (row.length : Int) - start else (chunkSize : Int))] := by
  have hsubstr : ∀ len, ∃ piece, substr row (toSize start) len = .ok piece := by
    intro len
    rw [substr, toSize_of_lt (by omega) (by omega), if_neg (by omega)]
    exact ⟨_, rfl⟩
  obtain ⟨t₁, hnext, hinfo₁⟩ := exists_nextChunk hinfo
  simp only [writePiece, hi, if_false]
  split
  · obtain ⟨piece, hpiece⟩ := hsubstr (toSize (row.length - start))
    obtain ⟨t, hupdate, hinfo', _, _⟩ := exists_updateMetadata hinfo₁ user piece (row.length - start)
    rw [hpiece, Run.ok_bind, hnext, Run.ok_bind, hupdate]
    exact ⟨t, rfl, hinfo'⟩
  · obtain ⟨piece, hpiece⟩ := hsubstr chunkSize
    obtain ⟨t, hupdate, hinfo', _, _⟩ := exists_updateMetadata hinfo₁ user piece chunkSize
    rw [hpiece, Run.ok_bind, hnext, Run.ok_bind, hupdate]
    exact ⟨t, rfl, hinfo'⟩

/-- The pieces before the last one. -/
theorem exists_pieces (hinfo : s.chunkInfo type = [chunk, fill]) (user : Str) {left needed : Nat}
    (hrow : row.length < 2 ^ 64) (k : Nat) (hk : k + 1 < needed) (hinside : left + k * chunkSize ≤ row.length) :
    ∃ chunk' t, (List.range (k + 1)).foldlM (writePiece type user row left needed) (s, 0) =
        .ok (t, ((left + k * chunkSize : Nat) : Int)) ∧
      t.chunkInfo type = [chunk', toInt32 (fill + (left + k * chunkSize : Nat))] := by
  induction k with
  | zero =>
      obtain ⟨t, hfirst, hinfo'⟩ := exists_firstPiece hinfo user row left needed
      rw [Nat.zero_mul, Nat.add_zero]
      refine ⟨chunk, t, ?_, hinfo'⟩
      rw [List.range_succ, List.range_zero, List.nil_append, List.foldlM_cons, hfirst]
      rfl
  | succ k ih =>
      have hstep : (k + 1) * chunkSize = k * chunkSize + chunkSize := Nat.succ_mul k chunkSize
      obtain ⟨chunk₁, t₁, hfold, hinfo₁⟩ := ih (by omega) (by omega)
      obtain ⟨t, hpiece, hinfo'⟩ := exists_writePiece (i := k + 1) hinfo₁ user left needed
        (show left + k * chunkSize ≤ row.length by omega) hrow (by omega)
      rw [if_neg (by omega)] at hpiece hinfo'
      have hsum : ((left + k * chunkSize : Nat) : Int) + chunkSize = (left + (k + 1) * chunkSize : Nat) := by
        rw [hstep]
        omega
      refine ⟨chunk₁ + 1, t, ?_, ?_⟩
      · rw [List.range_succ, List.foldlM_append, hfold, Run.ok_bind, List.foldlM_cons, hpiece, hsum]
        rfl
      · rw [hinfo', toInt32_add_toInt32, Int.add_assoc, hsum]

theorem exists_writeToChunk (hinfo : s.chunkInfo type = [chunk, fill]) (user : Str) (hlow : 0 ≤ fill)
    (hhigh : fill < 2 ^ 63) (hrow : row.length < 2 ^ 50) :
    ∃ chunk' t, s.writeToChunk user row type = .ok t ∧ t.chunkInfo type = [chunk', toInt32 (fill + row.length)] := by
  have hcleared : (s.clearMetadata type user).chunkInfo type = [chunk, fill] := by
    rw [clearMetadata_chunkInfo, hinfo]
  have hsize : chunkSize = 2 ^ 26 := by decide
  rw [writeToChunk, writeToChunkWith]
  simp only [hcleared, atIdx, List.getElem?_cons_succ, List.getElem?_cons_zero, Run.ok_bind]
  split
  · obtain ⟨t, hupdate, hinfo', _, _⟩ := exists_updateMetadata hcleared user row row.length
    exact ⟨chunk, t, hupdate, hinfo'⟩
  · next hlarge =>
      have hleft : 0 ≤ (chunkSize : Int) - fill := by
        by_contra hnegative
        have hwrapped : toSize (chunkSize - fill) = (chunkSize - fill + 2 ^ 64).toNat := by
          rw [toSize, ← Int.add_emod_right, Int.emod_eq_of_lt (by omega) (by omega)]
        omega
      obtain ⟨left, hleft⟩ := Int.eq_ofNat_of_zero_le hleft
      rw [hleft] at hlarge ⊢
      rw [toSize_of_lt (by omega) (by omega), Int.toNat_natCast] at hlarge
      rw [Int.toNat_natCast]
      have hneeded := two_le_chunkNeeded (n := row.length - left) (by omega)
      have hinside := chunkNeeded_le (n := row.length - left) (by omega) (by omega)
      generalize chunkNeeded toFloat (row.length - left) = needed at hneeded hinside ⊢
      obtain ⟨k, rfl⟩ := Nat.exists_eq_add_of_le' hneeded
      rw [Nat.add_sub_cancel] at hinside
      obtain ⟨chunk₁, t₁, hfold, hinfo₁⟩ := exists_pieces hcleared user (by omega) k (show k + 1 < k + 2 by omega)
        (show left + k * chunkSize ≤ row.length by omega)
      obtain ⟨t, hpiece, hinfo'⟩ := exists_writePiece (i := k + 1) hinfo₁ user left (k + 2)
        (show left + k * chunkSize ≤ row.length by omega) (by omega) (by omega)
      rw [if_pos (by omega)] at hpiece hinfo'
      refine ⟨chunk₁ + 1, t, ?_, ?_⟩
      · rw [List.range_succ, List.foldlM_append, hfold, Run.ok_bind, List.foldlM_cons, hpiece]
        rfl
      · have hsum : fill + ((left + k * chunkSize : Nat) : Int) + ((row.length : Int) - (left + k * chunkSize : Nat)) =
            fill + row.length := by omega
        rw [hinfo', toInt32_add_toInt32, hsum]

/-! ### The last record -/

/-- Whatever the length of a row, writing it ends with a record of its user. -/
theorem writeToChunk_last (hrun : s.writeToChunk user row type = .ok s') :
    ∃ (t : LRUCache) (str : Str) (size : Int), t.updateMetadata type user str size = .ok s' := by
  obtain ⟨fill, _, hrun⟩ := Run.bind_eq_ok.mp hrun
  split at hrun
  · exact ⟨_, _, _, hrun⟩
  · obtain ⟨⟨t, start⟩, hfold, hrun⟩ := Run.bind_eq_ok.mp hrun
    obtain rfl := Except.ok.inj hrun
    have hpiece : ∀ (left start : Int) needed i (t : LRUCache) result,
        writePiece type user row left needed (t, start) i = .ok result →
        ∃ (t' : LRUCache) (str : Str) (size : Int), t'.updateMetadata type user str size = .ok result.1 := by
      intro left start needed i t result hrun
      simp only [writePiece] at hrun
      split at hrun
      · obtain ⟨piece, _, hrun⟩ := Run.bind_eq_ok.mp hrun
        obtain ⟨t', hupdate, hrun⟩ := Run.bind_eq_ok.mp hrun
        obtain rfl := Except.ok.inj hrun
        exact ⟨_, _, _, hupdate⟩
      · split at hrun
        all_goals
          obtain ⟨piece, _, hrun⟩ := Run.bind_eq_ok.mp hrun
          obtain ⟨t', _, hrun⟩ := Run.bind_eq_ok.mp hrun
          obtain ⟨t'', hupdate, hrun⟩ := Run.bind_eq_ok.mp hrun
          obtain rfl := Except.ok.inj hrun
          exact ⟨_, _, _, hupdate⟩
    rw [chunkNeeded, List.range_succ_eq_map, List.foldlM_cons] at hfold
    obtain ⟨⟨t₁, start₁⟩, hfirst, hfold⟩ := Run.bind_eq_ok.mp hfold
    refine Run.foldlM_invariant
      (P := fun r : LRUCache × Int =>
        ∃ (t' : LRUCache) (str : Str) (size : Int), t'.updateMetadata type user str size = .ok r.1) ?_
      (hpiece _ _ _ _ _ _ hfirst) hfold
    rintro ⟨t, start⟩ i result _ _ hrun
    exact hpiece _ _ _ _ _ _ hrun

theorem updateMetadata_recorded (hrun : s.updateMetadata type user str size = .ok s') :
    (s'.metaOf type)[user]? ≠ none := by
  obtain ⟨chunk, _, hrun⟩ := Run.bind_eq_ok.mp hrun
  obtain ⟨start, _, hrun⟩ := Run.bind_eq_ok.mp hrun
  obtain rfl := Except.ok.inj hrun
  cases type <;> simp [setMeta, metaOf]

end PennCloud.LRUCache
