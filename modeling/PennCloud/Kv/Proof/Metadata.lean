import PennCloud.Kv.Proof.Checkpoint
import PennCloud.Kv.Proof.Rows

/-!
# Metadata read back

A checkpoint writes the records of each user, the counters and the sizes as text. What is read back is what was
written, as long as no user name holds a separator of the text and every user with records has at least one.
-/

namespace PennCloud.LRUCache

open Std

variable {s s' : LRUCache} {type : ChunkType} {user : Str} {record : List Int} {records : Records} {c : Char}

theorem readFile_eq_self {name : String} {text : Str} (hcontent : s.disk.content .metadata name.toList = text)
    (hline : '\n' ∉ text) : s.readFile name = text := by
  rw [readFile, hcontent]
  refine List.filter_eq_self.mpr fun c hc => ?_
  simpa using fun heq : c = '\n' => hline (heq ▸ hc)

section InfoText

variable {cpChunk cpSize vmChunk vmSize used : Int}

theorem notMem_infoText : '\n' ∉ infoText cpChunk cpSize vmChunk vmSize used := by
  have hnumber (k : Int) : '\n' ∉ toStr k := notMem_toStr (by decide) (by decide)
  simp [infoText, hnumber]

theorem pieces_infoText : Fields.pieces ',' (infoText cpChunk cpSize vmChunk vmSize used) =
    [toStr cpChunk, toStr cpSize, toStr vmChunk, toStr vmSize] := by
  have hnumber (k : Int) : ',' ∉ toStr k := notMem_toStr (by decide) (by decide)
  rw [infoText, Fields.pieces_append_cons (hnumber _), Fields.pieces_append_cons (hnumber _),
    Fields.pieces_append_cons (hnumber _), Fields.pieces_append_cons (hnumber _), Fields.pieces_of_notMem (hnumber _)]

theorem loadChunkInfo_infoText
    (hcontent : s.disk.content .metadata "chunk_info".toList = infoText cpChunk cpSize vmChunk vmSize used) :
    s.loadChunkInfo = (do
      let a ← stoi (toStr cpChunk)
      let b ← stoi (toStr cpSize)
      let c ← stoi (toStr vmChunk)
      let d ← stoi (toStr vmSize)
      .ok ((((s.pushChunkInfo .checkpointing a).pushChunkInfo .checkpointing b).pushChunkInfo .virtualMemory
        c).pushChunkInfo .virtualMemory d)) := by
  rw [loadChunkInfo, readFile_eq_self hcontent notMem_infoText, pieces_infoText]
  simp [List.zipIdx_cons, List.foldlM_cons]

end InfoText

theorem loadChunkInfo_empty (hcontent : s.disk.content .metadata "chunk_info".toList = []) : s.loadChunkInfo = .ok s := by
  rw [loadChunkInfo, readFile_eq_self hcontent List.not_mem_nil, Fields.pieces_nil]
  rfl

/-! ### Records -/

theorem stoi_toStr_of_isInt {n : Int} (h : IsInt n) : stoi (toStr n) = .ok n := by
  have hread := stoi_toStr endsNumber_nil h.1 h.2
  rwa [List.append_nil] at hread

/-- A chunk, a start and a length. -/
def IsRecord (record : List Int) : Prop := record.length = 3 ∧ ∀ n ∈ record, IsInt n

/-- The numbers of a record, as they stand before the semicolon. -/
def recordBody : List Int → Str
  | [chunk, start, length] => toStr chunk ++ ',' :: (toStr start ++ ',' :: toStr length)
  | _ => []

theorem IsRecord.exists_eq (h : IsRecord record) :
    ∃ chunk start length, record = [chunk, start, length] ∧ IsInt chunk ∧ IsInt start ∧ IsInt length := by
  obtain ⟨chunk, start, length, rfl⟩ := List.length_eq_three.mp h.1
  exact ⟨chunk, start, length, rfl, h.2 _ (by simp), h.2 _ (by simp), h.2 _ (by simp)⟩

theorem IsRecord.recordText (h : IsRecord record) : LRUCache.recordText record = .ok (recordBody record ++ [';']) := by
  obtain ⟨chunk, start, length, rfl, _⟩ := h.exists_eq
  simp [LRUCache.recordText, atIdx, recordBody]

theorem notMem_recordBody (hdigit : c.isDigit = false) (hminus : c ≠ '-') (hcomma : c ≠ ',') : c ∉ recordBody record := by
  have hnumber (k : Int) : c ∉ toStr k := notMem_toStr hdigit hminus
  unfold recordBody
  split
  · simp [hnumber, hcomma]
  · exact List.not_mem_nil

theorem IsRecord.rebuildVector (h : IsRecord record) : LRUCache.rebuildVector (recordBody record) = .ok record := by
  obtain ⟨chunk, start, length, rfl, hchunk, hstart, hlength⟩ := h.exists_eq
  have hnumber (k : Int) : ',' ∉ toStr k := notMem_toStr (by decide) (by decide)
  rw [LRUCache.rebuildVector, recordBody, Fields.pieces_append_cons (hnumber _), Fields.pieces_append_cons (hnumber _),
    Fields.pieces_of_notMem (hnumber _), Fields.remainder_append_cons (hnumber _), Fields.remainder_append_cons (hnumber _),
    Fields.remainder_of_notMem (hnumber _)]
  simp [stoi_toStr_of_isInt, hchunk, hstart, hlength]

/-! ### Users -/

/-- The name and the records of a user, as they stand behind the `@`. -/
def entryBody (entry : Str × Records) : Str := entry.1 ++ ';' :: Fields.terminate ';' (entry.2.map recordBody)

/-- Records that can be written down and read back. -/
structure Recordable (all : Map Records) : Prop where
  named : ∀ user ∈ all, '@' ∉ user ∧ ';' ∉ user ∧ '\n' ∉ user
  recorded : ∀ (user : Str) records, all[user]? = some records → records ≠ []
  shaped : ∀ (user : Str) records, all[user]? = some records → ∀ record ∈ records, IsRecord record

theorem recordable_empty : Recordable ∅ where
  named _ hmem := absurd hmem ExtTreeMap.not_mem_empty
  recorded user records hget := absurd hget (by simp)
  shaped user records hget := absurd hget (by simp)

theorem Recordable.insert {all : Map Records} (h : Recordable all) (huser : '@' ∉ user ∧ ';' ∉ user ∧ '\n' ∉ user)
    (hne : records ≠ []) (hrecords : ∀ record ∈ records, IsRecord record) : Recordable (all.insert user records) := by
  have hget {u : Str} {entry : Records} (hu : (all.insert user records)[u]? = some entry) :
      user = u ∧ records = entry ∨ all[u]? = some entry := by
    rw [SortedMap.getElem?_insert_eq] at hu
    split at hu
    · next heq => exact Or.inl ⟨heq, Option.some.inj hu⟩
    · exact Or.inr hu
  refine ⟨fun u hu => ?_, fun u entry hu => ?_, fun u entry hu => ?_⟩
  · rcases ExtTreeMap.mem_insert.mp hu with heq | hu
    · obtain rfl := LawfulEqCmp.compare_eq_iff_eq.mp heq
      exact huser
    · exact h.named u hu
  · rcases hget hu with ⟨_, rfl⟩ | hu
    · exact hne
    · exact h.recorded u entry hu
  · rcases hget hu with ⟨_, rfl⟩ | hu
    · exact hrecords
    · exact h.shaped u entry hu

/-- The text of all records. -/
def entriesText (all : Map Records) : Str := (all.toList.map entryBody).flatMap ('@' :: ·)

section Entries

variable {all : Map Records} {entry : Str × Records}

theorem Recordable.of_mem (h : Recordable all) (hentry : entry ∈ all.toList) :
    ('@' ∉ entry.1 ∧ ';' ∉ entry.1 ∧ '\n' ∉ entry.1) ∧ entry.2 ≠ [] ∧ ∀ record ∈ entry.2, IsRecord record := by
  have hget : all[entry.1]? = some entry.2 := ExtTreeMap.mem_toList_iff_getElem?_eq_some.mp hentry
  refine ⟨h.named _ ?_, h.recorded _ _ hget, h.shaped _ _ hget⟩
  exact ExtTreeMap.mem_iff_isSome_getElem?.mpr (by rw [hget, Option.isSome_some])

theorem Recordable.metaText (h : Recordable all) : LRUCache.metaText all = .ok (entriesText all) := by
  have hentries : ∀ entry ∈ all.toList, (do
      let texts ← entry.2.mapM recordText
      Except.ok ('@' :: (entry.1 ++ ';' :: texts.flatten))) = (.ok ('@' :: entryBody entry) : Except Fault Str) := by
    intro entry hentry
    rw [Run.mapM_eq_ok fun record hrecord => ((h.of_mem hentry).2.2 record hrecord).recordText, Run.ok_bind, entryBody,
      Fields.terminate, List.flatMap_map, List.flatMap]
  rw [LRUCache.metaText, Run.mapM_eq_ok hentries, Run.ok_bind, entriesText, List.flatMap_map, List.flatMap]

theorem notMem_entryBody (hname : c ∉ entry.1) (hdigit : c.isDigit = false) (hminus : c ≠ '-') (hcomma : c ≠ ',')
    (hsemicolon : c ≠ ';') : c ∉ entryBody entry := by
  have hbody (record : List Int) : c ∉ recordBody record := notMem_recordBody hdigit hminus hcomma
  simp [entryBody, Fields.terminate, hname, hsemicolon, hbody]

theorem Recordable.notMem_entriesText (h : Recordable all) : '\n' ∉ entriesText all := by
  have hentries : ∀ entry ∈ all.toList, '\n' ∉ entryBody entry := fun entry hentry =>
    notMem_entryBody (h.of_mem hentry).1.2.2 (by decide) (by decide) (by decide) (by decide)
  intro hmem
  obtain ⟨body, hbody, hmem⟩ := List.mem_flatMap.mp hmem
  obtain ⟨entry, hentry, rfl⟩ := List.mem_map.mp hbody
  rcases List.mem_cons.mp hmem with heq | hmem
  · exact absurd heq (by decide)
  · exact hentries entry hentry hmem

/-! ### Reading -/

theorem pushRecord_eq : s.pushRecord type user record =
    s.setMeta type (SortedMap.extend (s.metaOf type) (user, [record])) := rfl

theorem setMeta_setMeta (m m' : Map Records) : (s.setMeta type m).setMeta type m' = s.setMeta type m' := by
  cases type <;> rfl

theorem foldlM_pushRecord (hrecords : ∀ record ∈ records, IsRecord record) (hne : records ≠ []) :
    (records.map recordBody).foldlM (fun s body => do
      let record ← rebuildVector body
      .ok (s.pushRecord type user record)) s =
        .ok (s.setMeta type (SortedMap.extend (s.metaOf type) (user, records))) := by
  induction records generalizing s with
  | nil => exact absurd rfl hne
  | cons record records ih =>
      rw [List.map_cons, List.foldlM_cons, (hrecords record List.mem_cons_self).rebuildVector, Run.ok_bind, Run.ok_bind,
        pushRecord_eq]
      cases records with
      | nil => rfl
      | cons record' records =>
          rw [ih (fun r hr => hrecords r (List.mem_cons_of_mem _ hr)) (List.cons_ne_nil _ _), metaOf_setMeta, setMeta_setMeta,
            SortedMap.extend_extend, List.singleton_append]

theorem parseMeta_entryBody (huser : ';' ∉ entry.1) (hne : entry.2 ≠ []) (hrecords : ∀ record ∈ entry.2, IsRecord record) :
    parseMeta type s (entryBody entry) = .ok (s.setMeta type (SortedMap.extend (s.metaOf type) entry)) := by
  have hbodies : ∀ body ∈ entry.2.map recordBody, ';' ∉ body := by
    intro body hbody
    obtain ⟨record, _, rfl⟩ := List.mem_map.mp hbody
    exact notMem_recordBody (by decide) (by decide) (by decide)
  rw [parseMeta, entryBody, Fields.pieces_append_cons huser, Fields.pieces_terminate hbodies]
  exact foldlM_pushRecord hrecords hne

/-- What is read of the text of records goes behind the records that are there. -/
theorem Recordable.loadCpVmMeta {name : String} (h : Recordable all) (hempty : s.metaOf type = ∅)
    (hcontent : s.disk.content .metadata name.toList = entriesText all) :
    s.loadCpVmMeta name type = .ok (s.setMeta type all) := by
  have hfold (entries : List (Str × Records)) (hentries : ∀ entry ∈ entries, entry ∈ all.toList) (t : LRUCache) :
      (entries.map entryBody).foldlM (parseMeta type) t =
        .ok (t.setMeta type (entries.foldl SortedMap.extend (t.metaOf type))) := by
    induction entries generalizing t with
    | nil =>
        have hself : t.setMeta type (t.metaOf type) = t := by cases type <;> rfl
        exact congrArg Except.ok hself.symm
    | cons entry entries ih =>
        have hentry := h.of_mem (hentries entry List.mem_cons_self)
        rw [List.map_cons, List.foldlM_cons, parseMeta_entryBody hentry.1.2.1 hentry.2.1 hentry.2.2, Run.ok_bind,
          ih fun e he => hentries e (List.mem_cons_of_mem _ he), metaOf_setMeta, setMeta_setMeta, List.foldl_cons]
  have hall := hfold all.toList (fun _ hentry => hentry) s
  rw [hempty, SortedMap.foldl_extend_toList] at hall
  rw [LRUCache.loadCpVmMeta, readFile_eq_self hcontent h.notMem_entriesText, entriesText]
  by_cases hnone : all.toList = []
  · rw [hnone] at hall ⊢
    exact hall
  · rw [Fields.pieces_flatMap_cons (by simpa using hnone), hall]
    intro body hbody
    obtain ⟨entry, hentry, rfl⟩ := List.mem_map.mp hbody
    exact notMem_entryBody (h.of_mem hentry).1.1 (by decide) (by decide) (by decide) (by decide)

end Entries

theorem loadChunkInfo_counters {cpChunk cpSize vmChunk vmSize used : Int} (hempty : ∀ type, s.chunkInfo type = [])
    (hcp : IsInt cpChunk ∧ IsInt cpSize) (hvm : IsInt vmChunk ∧ IsInt vmSize)
    (hcontent : s.disk.content .metadata "chunk_info".toList = infoText cpChunk cpSize vmChunk vmSize used) :
    ∃ info, s.loadChunkInfo = .ok { s with chunkInfo := info } ∧
      info .checkpointing = [cpChunk, cpSize] ∧ info .virtualMemory = [vmChunk, vmSize] := by
  rw [loadChunkInfo_infoText hcontent, stoi_toStr_of_isInt hcp.1, stoi_toStr_of_isInt hcp.2, stoi_toStr_of_isInt hvm.1,
    stoi_toStr_of_isInt hvm.2]
  simp only [Run.ok_bind]
  refine ⟨_, rfl, ?_, ?_⟩
  · simp [pushChunkInfo, hempty]
  · simp [pushChunkInfo, hempty]

theorem loadUserSize_userSizeText {sizes : Map Int} (hempty : s.userSize = ∅)
    (hnames : ∀ user ∈ sizes, ',' ∉ user ∧ '\n' ∉ user) (hsizes : ∀ (user : Str) n, sizes[user]? = some n → IsInt n)
    (hcontent : s.disk.content .metadata "user_size".toList = userSizeText sizes) :
    s.loadUserSize = .ok { s with userSize := sizes } := by
  have hentry : ∀ entry ∈ sizes.toList, (',' ∉ entry.1 ∧ '\n' ∉ entry.1) ∧ IsInt entry.2 := by
    intro entry hentry
    have hget : sizes[entry.1]? = some entry.2 := ExtTreeMap.mem_toList_iff_getElem?_eq_some.mp hentry
    exact ⟨hnames _ (ExtTreeMap.mem_iff_isSome_getElem?.mpr (by rw [hget, Option.isSome_some])), hsizes _ _ hget⟩
  have hnumber (k : Int) : ',' ∉ toStr k ∧ '\n' ∉ toStr k :=
    ⟨notMem_toStr (by decide) (by decide), notMem_toStr (by decide) (by decide)⟩
  have hline : '\n' ∉ userSizeText sizes := by
    intro hmem
    obtain ⟨entry, hmem', hmem⟩ := List.mem_flatMap.mp hmem
    simp [(hentry entry hmem').1.2, (hnumber entry.2).2] at hmem
  have htext : userSizeText sizes = Fields.terminate ',' (fieldsOf (sizes.toList.map fun entry => (entry.1, toStr entry.2))) := by
    rw [← flatMap_eq_terminate, userSizeText, List.flatMap_map]
  have hfold (entries : List (Str × Int)) (hentries : ∀ entry ∈ entries, IsInt entry.2) (t : LRUCache) :
      (entries.map fun entry => (entry.1, toStr entry.2)).foldlM (fun s entry => do
        let n ← stoi entry.2
        .ok (s.setUserSize entry.1 n)) t =
          .ok { t with userSize := entries.foldl (fun sizes entry => sizes.insert entry.1 entry.2) t.userSize } := by
    induction entries generalizing t with
    | nil => rfl
    | cons entry entries ih =>
        rw [List.map_cons, List.foldlM_cons, stoi_toStr_of_isInt (hentries entry List.mem_cons_self), Run.ok_bind, Run.ok_bind,
          ih fun e he => hentries e (List.mem_cons_of_mem _ he)]
        rfl
  rw [loadUserSize, readFile_eq_self hcontent hline, htext, pairs_terminate, hfold _ fun entry h => (hentry entry h).2, hempty,
    SortedMap.foldl_insert_toList]
  intro file hfile
  obtain ⟨entry, hmem, rfl⟩ := List.mem_map.mp hfile
  exact ⟨(hentry entry hmem).1.1, (hnumber entry.2).1⟩

/-! ### All four files -/

section All

variable {cp vm : Map Records} {sizes : Map Int} {info : ChunkType → List Int}

/-- An empty process takes over what the files describe, whatever it makes of the counters. -/
theorem loadMetadata_eq (hcpEmpty : s.cpMeta = ∅) (hvmEmpty : s.virmemMeta = ∅) (hsizesEmpty : s.userSize = ∅)
    (hcp : Recordable cp) (hvm : Recordable vm) (hnames : ∀ user ∈ sizes, ',' ∉ user ∧ '\n' ∉ user)
    (hsizes : ∀ (user : Str) n, sizes[user]? = some n → IsInt n)
    (hcpText : s.disk.content .metadata "cp_meta".toList = entriesText cp)
    (hvmText : s.disk.content .metadata "virmem_meta".toList = entriesText vm)
    (hsizesText : s.disk.content .metadata "user_size".toList = userSizeText sizes)
    (hinfo : ∀ t : LRUCache, t.disk = s.disk → t.chunkInfo = s.chunkInfo →
      t.loadChunkInfo = .ok { t with chunkInfo := info }) :
    s.loadMetadata = .ok { s with cpMeta := cp, virmemMeta := vm, chunkInfo := info, userSize := sizes } := by
  have hloadCp : s.loadCpVmMeta "cp_meta" .checkpointing = .ok { s with cpMeta := cp } :=
    hcp.loadCpVmMeta hcpEmpty hcpText
  have hloadVm : ({ s with cpMeta := cp } : LRUCache).loadCpVmMeta "virmem_meta" .virtualMemory =
      .ok { s with cpMeta := cp, virmemMeta := vm } :=
    hvm.loadCpVmMeta (s := { s with cpMeta := cp }) hvmEmpty hvmText
  rw [loadMetadata, hloadCp, Run.ok_bind, hloadVm, Run.ok_bind,
    hinfo { s with cpMeta := cp, virmemMeta := vm } rfl rfl, Run.ok_bind]
  exact loadUserSize_userSizeText (s := { s with cpMeta := cp, virmemMeta := vm, chunkInfo := info }) hsizesEmpty hnames
    hsizes hsizesText

/-- A state that the metadata files can describe: two counters in each vector, all of them `int`s. -/
structure Describable (s : LRUCache) : Prop where
  cp : Recordable s.cpMeta
  vm : Recordable s.virmemMeta
  info : ∀ type, ∃ chunk fill, s.chunkInfo type = [chunk, fill] ∧ IsInt chunk ∧ IsInt fill
  named : ∀ user ∈ s.userSize, ',' ∉ user ∧ '\n' ∉ user
  sized : ∀ (user : Str) n, s.userSize[user]? = some n → IsInt n

theorem Describable.writeMetadata (h : s.Describable) : ∃ cpChunk cpSize vmChunk vmSize,
    s.chunkInfo .checkpointing = [cpChunk, cpSize] ∧ s.chunkInfo .virtualMemory = [vmChunk, vmSize] ∧
      (IsInt cpChunk ∧ IsInt cpSize) ∧ (IsInt vmChunk ∧ IsInt vmSize) ∧
        s.writeMetadata = .ok ((metadataWrites (entriesText s.cpMeta) (entriesText s.virmemMeta)
          (infoText cpChunk cpSize vmChunk vmSize s.memoryUsed) (userSizeText s.userSize)).foldl act s) := by
  obtain ⟨cpChunk, cpSize, hcpInfo, hcpInt⟩ := h.info .checkpointing
  obtain ⟨vmChunk, vmSize, hvmInfo, hvmInt⟩ := h.info .virtualMemory
  refine ⟨cpChunk, cpSize, vmChunk, vmSize, hcpInfo, hvmInfo, hcpInt, hvmInt, ?_⟩
  have hinfo (t : LRUCache) (ht : t.chunkInfo = s.chunkInfo) : t.writeChunkInfo = .ok (t.act (.append .metadata
      "chunk_info".toList (infoText cpChunk cpSize vmChunk vmSize t.memoryUsed))) := by
    rw [writeChunkInfo, ht, hcpInfo, hvmInfo]
    rfl
  let t := s.act (.append .metadata "cp_meta".toList (entriesText s.cpMeta))
  have hcp : s.writeCpMeta = .ok t := by rw [writeCpMeta, h.cp.metaText, Run.ok_bind]
  have hvm : t.writeVirmemMeta = .ok (t.act (.append .metadata "virmem_meta".toList (entriesText s.virmemMeta))) := by
    have hsame : t.virmemMeta = s.virmemMeta := rfl
    rw [writeVirmemMeta, hsame, h.vm.metaText, Run.ok_bind]
  rw [LRUCache.writeMetadata, hcp, Run.ok_bind, hvm, Run.ok_bind, hinfo (t.act _) rfl, Run.ok_bind]
  rfl

/-- An empty process takes over the counters of a state from their text. -/
theorem Describable.loadChunkInfo (h : s.Describable) {cpChunk cpSize vmChunk vmSize used : Int}
    (hcpInfo : s.chunkInfo .checkpointing = [cpChunk, cpSize]) (hvmInfo : s.chunkInfo .virtualMemory = [vmChunk, vmSize])
    {t : LRUCache} (hempty : ∀ type, t.chunkInfo type = [])
    (hcontent : t.disk.content .metadata "chunk_info".toList = infoText cpChunk cpSize vmChunk vmSize used) :
    t.loadChunkInfo = .ok { t with chunkInfo := s.chunkInfo } := by
  have hints {type : ChunkType} {chunk fill : Int} (hinfo : s.chunkInfo type = [chunk, fill]) : IsInt chunk ∧ IsInt fill := by
    obtain ⟨chunk', fill', hinfo', hints⟩ := h.info type
    obtain ⟨rfl, rfl⟩ : chunk' = chunk ∧ fill' = fill := by simpa [hinfo'] using hinfo
    exact hints
  obtain ⟨info, hload, hcpLoaded, hvmLoaded⟩ := loadChunkInfo_counters hempty (hints hcpInfo) (hints hvmInfo) hcontent
  have hsame : info = s.chunkInfo := by
    funext type
    cases type
    · rw [hvmLoaded, hvmInfo]
    · rw [hcpLoaded, hcpInfo]
  rw [hload, hsame]

/-- What a state writes into empty metadata files is what an empty process reads from them. -/
theorem loadMetadata_writeMetadata (h : s.Describable) (hempty : ∀ name, s.disk.content .metadata name = [])
    (capacity : Int) (isPrimary : Bool) :
    ∃ s' t, s.writeMetadata = .ok s' ∧ (init capacity isPrimary (fun _ => []) s'.disk).loadMetadata = .ok t ∧
      t.cpMeta = s.cpMeta ∧ t.virmemMeta = s.virmemMeta ∧ t.chunkInfo = s.chunkInfo ∧ t.userSize = s.userSize := by
  obtain ⟨cpChunk, cpSize, vmChunk, vmSize, hcpInfo, hvmInfo, _, _, hwrite⟩ := h.writeMetadata
  obtain ⟨hcpText, hvmText, hinfoText, hsizesText⟩ := metadataWrites_content (entriesText s.cpMeta) (entriesText s.virmemMeta)
    (infoText cpChunk cpSize vmChunk vmSize s.memoryUsed) (userSizeText s.userSize) hempty
  refine ⟨_, _, hwrite, loadMetadata_eq rfl rfl rfl h.cp h.vm h.named h.sized ?_ ?_ ?_ ?_, rfl, rfl, rfl, rfl⟩
  all_goals rw [init, foldl_act]
  · exact hcpText
  · exact hvmText
  · exact hsizesText
  · exact fun t hdisk hchunkInfo => h.loadChunkInfo hcpInfo hvmInfo (congrFun hchunkInfo) (by rw [hdisk]; exact hinfoText)

/-- Two records of one user, and no user in virtual memory. -/
theorem loadMetadata_writeMetadata_two_records :
    ∃ s' t, ({ fresh 10 true with
        cpMeta := (∅ : Map Records).insert "u".toList [[0, 0, 5], [1, 5, 2]]
        userSize := (∅ : Map Int).insert "u".toList 3
        memoryUsed := 3 } : LRUCache).writeMetadata = .ok s' ∧
      (init 10 true (fun _ => []) s'.disk).loadMetadata = .ok t ∧
        t.cpMeta = (∅ : Map Records).insert "u".toList [[0, 0, 5], [1, 5, 2]] ∧ t.virmemMeta = ∅ ∧
          t.chunkInfo = (fun _ => [0, 0]) ∧ t.userSize = (∅ : Map Int).insert "u".toList 3 := by
  have hcp : Recordable ((∅ : Map Records).insert "u".toList [[0, 0, 5], [1, 5, 2]]) := by
    refine recordable_empty.insert (by decide) (List.cons_ne_nil _ _) fun record hrecord => ?_
    rcases List.mem_cons.mp hrecord with rfl | hrecord
    · exact ⟨rfl, by decide⟩
    · obtain rfl := List.mem_singleton.mp hrecord
      exact ⟨rfl, by decide⟩
  refine loadMetadata_writeMetadata (s := { fresh 10 true with
    cpMeta := (∅ : Map Records).insert "u".toList [[0, 0, 5], [1, 5, 2]]
    userSize := (∅ : Map Int).insert "u".toList 3
    memoryUsed := 3 }) ⟨hcp, recordable_empty, fun type => ⟨0, 0, rfl, by decide, by decide⟩, fun user hmem => ?_,
      fun user n hget => ?_⟩ (fun name => Disk.content_of_empty rfl) 10 true
  · obtain heq | hmem := ExtTreeMap.mem_insert.mp hmem
    · obtain rfl := LawfulEqCmp.compare_eq_iff_eq.mp heq
      decide
    · exact absurd hmem ExtTreeMap.not_mem_empty
  · rw [SortedMap.getElem?_insert_eq] at hget
    split at hget
    · obtain rfl := Option.some.inj hget
      exact ⟨by decide, by decide⟩
    · simp at hget

end All

end PennCloud.LRUCache
