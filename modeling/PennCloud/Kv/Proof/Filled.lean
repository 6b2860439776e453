import PennCloud.Kv.Proof.Closed

/-!
# When a chunk fills up

The chunk counter of a series starts at 0 and only grows. A row that does not fit into what is left of
the current chunk moves it on, and then it stays above 0.
-/

namespace PennCloud.LRUCache

open Std

variable {s s' t : LRUCache} {user row : Str} {type : ChunkType} {commFd seqNum : Int} {fuel : Nat}

/-- A series of chunk files has left its first file. -/
def FilledUp (s : LRUCache) (type : ChunkType) : Prop :=
  ∃ chunk, (s.chunkInfo type)[0]? = some chunk ∧ 1 ≤ chunk

theorem FilledUp.congr (h : s.FilledUp type) (hinfo : s'.chunkInfo = s.chunkInfo) :
    s'.FilledUp type := by
  rw [FilledUp, hinfo]
  exact h

theorem atIdx_eq_ok {α : Type} {v : List α} {i : Nat} {a : α} : atIdx v i = .ok a ↔ v[i]? = some a := by
  rw [atIdx]
  cases v[i]? with
  | none => simp
  | some b => simp

theorem nextChunk_ok (hrun : s.nextChunk type = .ok s') :
    ∃ chunk, (s.chunkInfo type)[0]? = some chunk ∧ (s'.chunkInfo type)[0]? = some (chunk + 1) := by
  obtain ⟨chunk, hchunk, hs'⟩ := Run.bind_eq_ok.mp hrun
  obtain rfl := Except.ok.inj hs'
  rw [atIdx_eq_ok] at hchunk
  refine ⟨chunk, hchunk, ?_⟩
  simp [(List.getElem?_eq_some_iff.mp hchunk).1]

theorem updateMetadata_chunk {str : Str} {size : Int} (hrun : s.updateMetadata type user str size = .ok s') :
    (s'.chunkInfo type)[0]? = (s.chunkInfo type)[0]? := by
  obtain ⟨chunk, hchunk, hrun⟩ := Run.bind_eq_ok.mp hrun
  obtain ⟨start, hstart, hrun⟩ := Run.bind_eq_ok.mp hrun
  obtain rfl := Except.ok.inj hrun
  cases type <;> simp [setMeta, act]

theorem FilledUp.writePiece {left : Int} {needed i : Nat} {start : Int} {result : LRUCache × Int}
    (h : s.FilledUp type) (hrun : LRUCache.writePiece type user row left needed (s, start) i = .ok result) :
    result.1.FilledUp type := by
  obtain ⟨chunk, hchunk, hpos⟩ := h
  simp only [LRUCache.writePiece] at hrun
  split at hrun
  · obtain ⟨piece, _, hrun⟩ := Run.bind_eq_ok.mp hrun
    obtain ⟨t, hupdate, hrun⟩ := Run.bind_eq_ok.mp hrun
    obtain rfl := Except.ok.inj hrun
    exact ⟨chunk, (updateMetadata_chunk hupdate).trans hchunk, hpos⟩
  · split at hrun
    all_goals
      obtain ⟨piece, _, hrun⟩ := Run.bind_eq_ok.mp hrun
      obtain ⟨t, hnext, hrun⟩ := Run.bind_eq_ok.mp hrun
      obtain ⟨t', hupdate, hrun⟩ := Run.bind_eq_ok.mp hrun
      obtain rfl := Except.ok.inj hrun
      obtain ⟨chunk', hchunk', hnext⟩ := nextChunk_ok hnext
      obtain rfl := Option.some.inj (hchunk.symm.trans hchunk')
      exact ⟨chunk + 1, (updateMetadata_chunk hupdate).trans hnext, by omega⟩

theorem filledUp_writePiece {left : Int} {needed i : Nat} {start chunk : Int} {result : LRUCache × Int}
    (hchunk : (s.chunkInfo type)[0]? = some chunk) (hnonneg : 0 ≤ chunk) (hi : i ≠ 0)
    (hrun : writePiece type user row left needed (s, start) i = .ok result) :
    result.1.FilledUp type := by
  simp only [writePiece, hi, if_false] at hrun
  split at hrun
  all_goals
    obtain ⟨piece, _, hrun⟩ := Run.bind_eq_ok.mp hrun
    obtain ⟨t, hnext, hrun⟩ := Run.bind_eq_ok.mp hrun
    obtain ⟨t', hupdate, hrun⟩ := Run.bind_eq_ok.mp hrun
    obtain rfl := Except.ok.inj hrun
    obtain ⟨chunk', hchunk', hnext⟩ := nextChunk_ok hnext
    obtain rfl := Option.some.inj (hchunk.symm.trans hchunk')
    exact ⟨chunk + 1, (updateMetadata_chunk hupdate).trans hnext, by omega⟩

theorem clearMetadata_chunkInfo : (s.clearMetadata type user).chunkInfo = s.chunkInfo := by
  cases type <;> rfl

theorem FilledUp.writeToChunk (h : s.FilledUp type) (hrun : s.writeToChunk user row type = .ok s') :
    s'.FilledUp type := by
  have hcleared : (s.clearMetadata type user).FilledUp type := h.congr clearMetadata_chunkInfo
  obtain ⟨fill, _, hrun⟩ := Run.bind_eq_ok.mp hrun
  split at hrun
  · obtain ⟨chunk, hchunk, hpos⟩ := hcleared
    exact ⟨chunk, (updateMetadata_chunk hrun).trans hchunk, hpos⟩
  · obtain ⟨⟨t, start⟩, hfold, hrun⟩ := Run.bind_eq_ok.mp hrun
    obtain rfl := Except.ok.inj hrun
    refine Run.foldlM_invariant (P := fun r : LRUCache × Int => r.1.FilledUp type) ?_ hcleared hfold
    rintro ⟨t, start⟩ i result _ ht hpiece
    exact ht.writePiece hpiece

/-! ### A row that does not fit -/

theorem toFloat_pos {n : Nat} (hn : 0 < n) : 0 < toFloat n := by
  rw [toFloat]
  split
  · exact hn
  · next hlarge =>
      have hne : n ≠ 0 := by omega
      have hulp : 0 < 2 ^ (n.log2 - 23) := Nat.two_pow_pos _
      have hle : 2 ^ (n.log2 - 23) ≤ n :=
        (Nat.pow_le_pow_right (by decide) (Nat.sub_le _ _)).trans (Nat.log2_self_le hne)
      have hquotient : 0 < n / 2 ^ (n.log2 - 23) := Nat.div_pos hle hulp
      dsimp only
      split
      · exact Nat.mul_pos hquotient hulp
      · exact Nat.mul_pos (Nat.succ_pos _) hulp

theorem two_le_chunkNeeded {n : Nat} (hn : 0 < n) : 2 ≤ chunkNeeded toFloat n := by
  have hpos : 0 < chunkSize := by decide
  have hround := toFloat_pos hn
  have hquotient : 0 < (toFloat n + chunkSize - 1) / chunkSize := Nat.div_pos (by omega) hpos
  rw [chunkNeeded]
  omega

theorem filledUp_writeToChunk {chunk : Int} {fill : Nat} (hinfo : s.chunkInfo type = [chunk, (fill : Int)])
    (hchunk : 0 ≤ chunk) (hfill : fill ≤ chunkSize) (hrow : chunkSize < fill + row.length)
    (hrun : s.writeToChunk user row type = .ok s') : s'.FilledUp type := by
  have hmax : (chunkSize : Int) ≤ intMax := by decide
  have hcleared : (s.clearMetadata type user).chunkInfo type = [chunk, (fill : Int)] := by
    rw [clearMetadata_chunkInfo, hinfo]
  have hspace : ¬ row.length ≤ toSize (chunkSize - fill) := by
    rw [toSize_of_nonneg (by omega) (by omega)]
    omega
  rw [writeToChunk, writeToChunkWith] at hrun
  simp only [hcleared, atIdx, List.getElem?_cons_succ, List.getElem?_cons_zero, Run.ok_bind] at hrun
  rw [if_neg hspace] at hrun
  obtain ⟨⟨t, start⟩, hfold, hrun⟩ := Run.bind_eq_ok.mp hrun
  obtain rfl := Except.ok.inj hrun
  have hneeded : 2 ≤ chunkNeeded toFloat (row.length - ((chunkSize : Int) - fill).toNat) :=
    two_le_chunkNeeded (by omega)
  obtain ⟨k, hk⟩ := Nat.exists_eq_add_of_le' hneeded
  rw [hk, List.range_succ_eq_map, List.range_succ_eq_map, List.map_cons, List.foldlM_cons] at hfold
  obtain ⟨⟨t₁, start₁⟩, hfirst, hfold⟩ := Run.bind_eq_ok.mp hfold
  rw [List.foldlM_cons] at hfold
  obtain ⟨⟨t₂, start₂⟩, hsecond, hfold⟩ := Run.bind_eq_ok.mp hfold
  have hchunk₁ : (t₁.chunkInfo type)[0]? = some chunk := by
    simp only [writePiece, if_true] at hfirst
    obtain ⟨piece, _, hfirst⟩ := Run.bind_eq_ok.mp hfirst
    obtain ⟨t, hupdate, hfirst⟩ := Run.bind_eq_ok.mp hfirst
    obtain ⟨rfl, rfl⟩ := Prod.mk.inj (Except.ok.inj hfirst)
    rw [updateMetadata_chunk hupdate, hcleared]
    rfl
  have hfilled : t₂.FilledUp type := filledUp_writePiece hchunk₁ hchunk (by decide) hsecond
  refine Run.foldlM_invariant (P := fun r : LRUCache × Int => r.1.FilledUp type) ?_ hfilled hfold
  rintro ⟨t, start⟩ i result _ ht hpiece
  exact ht.writePiece hpiece

/-! ### The commands -/

/-- A chunk file of virtual memory has filled up. -/
abbrev Filled (s : LRUCache) : Prop := s.FilledUp .virtualMemory

theorem not_filled_of_chunkInfo {size : Int} (hinfo : s.chunkInfo .virtualMemory = [0, size]) : ¬ s.Filled := by
  rintro ⟨chunk, hchunk, hpos⟩
  rw [hinfo] at hchunk
  obtain rfl : 0 = chunk := Option.some.inj hchunk
  omega

theorem FilledUp.useVirtualMemory (h : s.Filled) (hrun : s.useVirtualMemory = .ok s') : s'.Filled := by
  obtain ⟨x, n, t, _, _, hwrite, rfl⟩ := useVirtualMemory_ok hrun
  exact (h.writeToChunk hwrite).congr rfl

theorem FilledUp.storeResident {filename : Str} {new : Str → Str} (h : s.Filled)
    (hrun : s.storeResident user filename new = .ok s') : s'.Filled := by
  obtain ⟨r, _, hrun⟩ := Run.bind_eq_ok.mp hrun
  obtain ⟨L, rfl⟩ := moveToTail_relink hrun
  exact h.congr rfl

theorem closed_filled : Closed Filled where
  still _ _ hs hstill := hs.congr hstill.chunkInfo
  insert _ _ _ _ _ hs _ _ hrun := by
    obtain ⟨p, _, rfl⟩ := insertUser_ok hrun
    exact hs.congr rfl
  store _ _ _ _ _ hs hrun := hs.storeResident hrun
  evict _ _ hs hrun := hs.useVirtualMemory hrun
  move _ _ _ _ _ hs _ hdetach hmove := by
    obtain ⟨p, n, _, _, rfl⟩ := detach_ok hdetach
    obtain ⟨L, rfl⟩ := moveToTail_relink hmove
    exact hs.congr rfl
  erase _ _ _ _ hs _ := hs.congr rfl
  rename _ _ _ _ _ _ hs _ := hs.congr rfl

theorem kept_filled (user : Str) : Kept Filled (fun _ => True) user commFd := closed_filled.kept user commFd

theorem FilledUp.getHelper {filename : Str} {found : Option Str} (h : s.Filled)
    (hrun : s.getHelper fuel user filename commFd = .ok (found, s')) : s'.Filled :=
  closed_filled.getHelper h hrun

theorem FilledUp.exec {op : Op} (h : s.Filled) (hrun : s.exec fuel op = .ok s') : s'.Filled :=
  closed_filled.exec h hrun

end PennCloud.LRUCache
