import PennCloud.Kv.Proof.Migration
import PennCloud.Kv.Proof.Ordered
import PennCloud.Kv.Proof.Replies

/-!
# What a command answers

A command answers with notices, each a line of its own, and at most one text besides: the value that a get has
found, or the report of a secondary that it has stored one. A user that comes back from virtual memory can bring
notices of its own. The listing of a resident user is read off its node.
-/

namespace PennCloud

open Std

/-- A line that says how a command went. -/
def Notice (text : Str) : Prop :=
  ∃ line, text = line ++ "\r\n".toList ∧ '\r' ∉ line ∧ line.head? ≠ some '!' ∧ line.head? ≠ some ','

namespace LRUCache

variable {s s' t : LRUCache} {user filename value : Str} {commFd seqNum : Int} {fuel : Nat} {node : Ref}
  {found : Option Str}

/-- Only notices have been sent, on one descriptor, and the limits are the same. -/
structure Utters (s s' : LRUCache) (commFd : Int) : Prop where
  role : s'.isPrimary = s.isPrimary
  capacity : s'.capacity = s.capacity
  sizes : ∀ u, s'.userSizeOf u = s.userSizeOf u
  replies : ∃ notices : List Str, s'.sent = s.sent ++ notices.map (Prod.mk commFd) ∧ ∀ text ∈ notices, Notice text

theorem Utters.of_eq (hrole : s'.isPrimary = s.isPrimary) (hcapacity : s'.capacity = s.capacity)
    (hsizes : ∀ u, s'.userSizeOf u = s.userSizeOf u) (hsent : s'.sent = s.sent) : Utters s s' commFd :=
  ⟨hrole, hcapacity, hsizes, [], by rw [hsent, List.map_nil, List.append_nil], fun _ hmem => absurd hmem List.not_mem_nil⟩

theorem Utters.refl : Utters s s commFd := .of_eq rfl rfl (fun _ => rfl) rfl

theorem Utters.trans (h : Utters s t commFd) (h' : Utters t s' commFd) : Utters s s' commFd := by
  obtain ⟨notices, hsent, hnotices⟩ := h.replies
  obtain ⟨notices', hsent', hnotices'⟩ := h'.replies
  refine ⟨h'.role.trans h.role, h'.capacity.trans h.capacity, fun u => (h'.sizes u).trans (h.sizes u),
    notices ++ notices', ?_, ?_⟩
  · rw [hsent', hsent, List.append_assoc, List.map_append]
  · intro text hmem
    exact (List.mem_append.mp hmem).elim (hnotices text) (hnotices' text)

theorem utters_send {msg : Str} (hmsg : Notice msg) : Utters s (s.send commFd msg) commFd :=
  ⟨rfl, rfl, fun _ => rfl, [msg], rfl, fun text hmem => by rwa [List.mem_singleton.mp hmem]⟩

theorem Utters.exceedsQuota (h : Utters s s' commFd) (u v : Str) : s'.exceedsQuota u v = s.exceedsQuota u v := by
  rw [LRUCache.exceedsQuota, LRUCache.exceedsQuota, h.sizes, h.capacity]

theorem Utters.relink (h : Utters s t commFd) (L : DList.Links Ref) : Utters s (t.relink L) commFd :=
  h.trans (.of_eq rfl rfl (fun _ => rfl) rfl)

/-! ### Notices -/

theorem notice_overQuota : Notice "-ERR Your storage exceeds node capacity\r\n".toList :=
  ⟨"-ERR Your storage exceeds node capacity".toList, rfl, by decide, by decide, by decide⟩

theorem notice_oversized : Notice "-ERR File size exceeds node capacity\r\n".toList :=
  ⟨"-ERR File size exceeds node capacity".toList, rfl, by decide, by decide, by decide⟩

theorem notice_noUser : Notice "-ERR User not exist\r\n".toList :=
  ⟨"-ERR User not exist".toList, rfl, by decide, by decide, by decide⟩

theorem notice_noFile : Notice "-ERR No such file\r\n".toList :=
  ⟨"-ERR No such file".toList, rfl, by decide, by decide, by decide⟩

theorem notice_stored : Notice "+OK Value stored\r\n".toList :=
  ⟨"+OK Value stored".toList, rfl, by decide, by decide, by decide⟩

theorem notice_value : Notice "+OK value as follows: \r\n".toList :=
  ⟨"+OK value as follows: ".toList, rfl, by decide, by decide, by decide⟩

/-! ### Parts of a command -/

/-- Internal puts give notices, and so does everything that a put does before it charges the user. -/
theorem steady_utters (s : LRUCache) (user : Str) :
    Steady (fun t => Utters s t commFd) (fun _ => True) (fun external isCPUT => external = false ∧ isCPUT = false)
      user commFd where
  inner := ⟨rfl, rfl⟩
  touched t external isCPUT h := h.trans (.of_eq (by rw [touched_eq]) touched_capacity (fun u => touched_userSizeOf u)
    (by rw [touched_eq]))
  overQuota t h := h.trans (utters_send notice_overQuota)
  oversized t h := h.trans (utters_send notice_oversized)
  charged t value external isCPUT seqNum hcall h := by
    obtain ⟨rfl, rfl⟩ := hcall
    exact h.trans (.of_eq rfl rfl (fun _ => rfl) rfl)
  cleared t h := h.trans (.of_eq rfl rfl (fun _ => rfl) rfl)
  insert t t' filename value _ h _ _ hrun := by
    obtain ⟨p, _, rfl⟩ := insertUser_ok hrun
    exact h.trans (.of_eq rfl rfl (fun _ => rfl) rfl)
  store t t' filename value new _ _ h hrun := by
    obtain ⟨r, _, hrun⟩ := Run.bind_eq_ok.mp hrun
    obtain ⟨L, rfl⟩ := moveToTail_relink hrun
    exact h.trans (.of_eq rfl rfl (fun _ => rfl) rfl)
  evict t t' h hrun := by
    obtain ⟨x, n, t₁, _, _, hwrite, rfl⟩ := useVirtualMemory_ok hrun
    have hstep := chunkStep_writeToChunkWith hwrite
    refine h.trans (.of_eq hstep.isPrimary hstep.capacity (fun u => ?_) hstep.sent)
    rw [userSizeOf, dropped_userSize, hstep.userSize, userSizeOf]
  pairs _ _ _ := trivial

theorem utters_loadUserFromDisk {type : ChunkType} (hrun : s.loadUserFromDisk fuel type user commFd = .ok s') :
    Utters s s' commFd :=
  (steady_utters s user).loadUserFromDisk .refl hrun

theorem utters_getHelper (hrun : s.getHelper fuel user filename commFd = .ok (found, s')) :
    Utters s s' commFd := by
  apply (steady_utters s user).getHelper (fun t L ht => ?_) (fun t ht => ?_) (fun t ht => ?_) .refl hrun
  · exact ht.relink L
  · exact ht.trans (utters_send notice_noUser)
  · exact ht.trans (utters_send notice_noFile)

theorem lookUp_of_file (hresident : s.tablets[user]? = some node) (hfile : (s.heap node).value[filename]? = some value)
    (hrun : s.lookUp user filename commFd = .ok (found, s')) :
    found = some value ∧ s'.sent = s.sent ∧ s'.tablets = s.tablets := by
  obtain ⟨r, hr, hrun⟩ := Run.bind_eq_ok.mp hrun
  obtain rfl := Option.some.inj (hresident.symm.trans (deref_eq_ok.mp hr))
  obtain ⟨t', hdetach, hrun⟩ := Run.bind_eq_ok.mp hrun
  obtain ⟨t'', hmove, hrun⟩ := Run.bind_eq_ok.mp hrun
  obtain ⟨p, n, _, _, rfl⟩ := detach_ok hdetach
  obtain ⟨L, rfl⟩ := moveToTail_relink hmove
  simp only [relink_value, hfile] at hrun
  obtain ⟨rfl, rfl⟩ := Prod.mk.inj (Except.ok.inj hrun)
  exact ⟨rfl, rfl, rfl⟩

theorem getHelper_of_file (h : s.Wired) (hresident : s.tablets[user]? = some node)
    (hfile : (s.heap node).value[filename]? = some value)
    (hrun : s.getHelper fuel user filename commFd = .ok (found, s')) : found = some value ∧ s'.sent = s.sent := by
  have hvirmem : s.virmemMeta.contains user = false := by
    rw [ExtTreeMap.contains_eq_isSome_getElem?, h.tidy.disjoint user node hresident]
    rfl
  have hknown : ¬ (s.tablets[user]? = none ∧ s.virmemMeta[user]? = none) := by
    rw [hresident]
    exact fun hnone => absurd hnone.1 (Option.some_ne_none node)
  rw [getHelper_of_known hknown, fetched, hvirmem] at hrun
  obtain ⟨t, ht, hrun⟩ := Run.bind_eq_ok.mp hrun
  obtain rfl : s = t := Except.ok.inj ht
  obtain ⟨hfound, hsent, _⟩ := lookUp_of_file hresident hfile hrun
  exact ⟨hfound, hsent⟩

/-! ### Commands -/

theorem sent_get (hrun : s.get fuel user filename commFd = .ok s') :
    ∃ found t notices, s.getHelper fuel user filename commFd = .ok (found, t) ∧
      s'.sent = s.sent ++ (notices ++ found.toList).map (Prod.mk commFd) ∧ ∀ text ∈ notices, Notice text := by
  obtain ⟨⟨found, t⟩, hget, hrun⟩ := Run.bind_eq_ok.mp hrun
  obtain ⟨notices, hsent, hnotices⟩ := (utters_getHelper hget).replies
  cases found with
  | none =>
      obtain rfl := Except.ok.inj hrun
      exact ⟨none, t, notices, hget, by rw [hsent, Option.toList_none, List.append_nil], hnotices⟩
  | some value =>
      obtain rfl := Except.ok.inj hrun
      refine ⟨some value, t, notices ++ ["+OK value as follows: \r\n".toList], hget, ?_, ?_⟩
      · change t.sent ++ [(commFd, "+OK value as follows: \r\n".toList)] ++ [(commFd, value)] = _
        rw [hsent]
        simp only [List.map_append, List.append_assoc]
        rfl
      · intro text hmem
        refine (List.mem_append.mp hmem).elim (hnotices text) fun hmem => ?_
        rw [List.mem_singleton.mp hmem]
        exact notice_value

/-- What a put is answered besides notices: a secondary reports that it has stored the value. -/
def report (s : LRUCache) (user value : Str) (seqNum : Int) : List Str :=
  if s.isPrimary = true ∨ s.Refused user value then []
  else [Store.done user seqNum]

theorem sent_putLoop (hquota : s.exceedsQuota user value = false)
    (hrun : LRUCache.putLoop fuel s user filename value commFd true seqNum = .ok s') :
    ∃ notices : List Str, s'.sent = s.sent ++ (notices ++ if s.isPrimary then [] else
      [Store.done user seqNum]).map (Prod.mk commFd) ∧
        ∀ text ∈ notices, Notice text := by
  induction fuel generalizing s with
  | zero => exact absurd hrun (by simp [LRUCache.putLoop])
  | succ fuel ih =>
      have htouched : Utters s (s.touched user true false) commFd := (steady_utters s user).touched _ _ _ .refl
      rcases putLoop_succ_ok hrun with hdone | ⟨t, t', hroom, hevict, hrest⟩
      · rcases putHelper_ok hdone with ⟨_, _, hover, _⟩ | ⟨_, _, _, t, hplace, rfl⟩ | ⟨hstored, _⟩
        · exact absurd (hquota.symm.trans hover) Bool.false_ne_true
        · have hloaded : Utters s t commFd := by
            refine (steady_utters s user).placeValue (fun t t' ht hload => ?_) htouched trivial hplace
            exact ht.trans (utters_loadUserFromDisk hload)
          obtain ⟨notices, hsent, hnotices⟩ := hloaded.replies
          rw [charged_sent, hsent, ← hloaded.role]
          cases t.isPrimary with
          | true =>
              refine ⟨notices ++ ["+OK Value stored\r\n".toList], by simp [storedReply], fun text hmem => ?_⟩
              refine (List.mem_append.mp hmem).elim (hnotices text) fun hmem => ?_
              rw [List.mem_singleton.mp hmem]
              exact notice_stored
          | false => exact ⟨notices, by simp [storedReply], hnotices⟩
        · exact absurd hstored Bool.false_ne_true.symm
      · rcases putHelper_ok hroom with ⟨hstored, _⟩ | ⟨hstored, _⟩ | ⟨_, _, _, rfl⟩
        · exact absurd hstored Bool.false_ne_true
        · exact absurd hstored Bool.false_ne_true
        · have hevicted : Utters s t' commFd := (steady_utters s user).evict _ _ htouched hevict
          obtain ⟨notices, hsent, hnotices⟩ := hevicted.replies
          obtain ⟨notices', hsent', hnotices'⟩ := ih ((hevicted.exceedsQuota _ _).trans hquota) hrest
          refine ⟨notices ++ notices', ?_, ?_⟩
          · rw [hsent', hsent, hevicted.role]
            simp only [List.map_append, List.append_assoc]
          · intro text hmem
            exact (List.mem_append.mp hmem).elim (hnotices text) (hnotices' text)

variable {wanted : Str → Bool} {entry : Str → Str → Str} {file : (Str × Str) × Nat} {files : List ((Str × Str) × Nat)}

/-- What the loop over the files sends for one of them. -/
def listed (wanted : Str → Bool) (entry : Str → Str → Str) (file : (Str × Str) × Nat) : List Str :=
  if wanted file.1.1 then
    (if file.2 = 0 then ["+OK list as follows: \r\n".toList] else []) ++ [entry file.1.1 file.1.2]
  else []

/-- The listing of a node. -/
def listing (wanted : Str → Bool) (entry : Str → Str → Str) (files : Map Str) : List Str :=
  files.toList.zipIdx.flatMap (listed wanted entry)

/-- One round of the loop over the files. -/
def listFile (fuel : Nat) (user : Str) (commFd : Int) (wanted : Str → Bool) (entry : Str → Str → Str) (s : LRUCache)
    (file : (Str × Str) × Nat) : Except Fault LRUCache :=
  if wanted file.1.1 then do
    let (found, s) ← s.getHelper fuel user file.1.1 commFd
    match found with
    | some value =>
        let s := if file.2 = 0 then s.servermsg "+OK list as follows: \r\n" commFd else s
        .ok (s.send commFd (entry file.1.1 value))
    | none => .ok s
  else .ok s

theorem listFiles_eq (hresident : s.tablets[user]? = some node) : s.listFiles fuel user commFd wanted entry =
    (s.heap node).value.toList.zipIdx.foldlM (listFile fuel user commFd wanted entry) s := by
  rw [listFiles, hresident]
  rfl

theorem listFile_ok (h : s.Wired) (hresident : s.tablets[user]? = some node)
    (hfile : (s.heap node).value[file.1.1]? = some file.1.2)
    (hrun : listFile fuel user commFd wanted entry s file = .ok s') :
    s'.Wired ∧ s'.tablets[user]? = some node ∧ (s'.heap node).value = (s.heap node).value ∧
      s'.sent = s.sent ++ (listed wanted entry file).map (Prod.mk commFd) := by
  rw [listFile] at hrun
  split at hrun
  · next hwanted =>
      obtain ⟨⟨found, t⟩, hget, hrun⟩ := Run.bind_eq_ok.mp hrun
      obtain ⟨_, htablets, hvalues⟩ := Chunkserver.getHelper_of_resident h hresident hget
      obtain ⟨rfl, hsent⟩ := getHelper_of_file h hresident hfile hget
      have ht : t.Wired := closed_wired.getHelper h hget
      obtain rfl := Except.ok.inj hrun
      rw [listed, if_pos hwanted]
      split
      · refine ⟨closed_wired.sent ht _, htablets ▸ hresident, hvalues node, ?_⟩
        change t.sent ++ [(commFd, "+OK list as follows: \r\n".toList)] ++ [(commFd, entry file.1.1 file.1.2)] = _
        rw [hsent, List.append_assoc]
        rfl
      · refine ⟨closed_wired.sent ht _, htablets ▸ hresident, hvalues node, ?_⟩
        change t.sent ++ [(commFd, entry file.1.1 file.1.2)] = _
        rw [hsent]
        rfl
  · next hwanted =>
      obtain rfl := Except.ok.inj hrun
      rw [listed, if_neg hwanted, List.map_nil, List.append_nil]
      exact ⟨h, hresident, rfl, rfl⟩

theorem sent_listFile (h : s.Wired) (hresident : s.tablets[user]? = some node)
    (hfiles : ∀ file ∈ files, (s.heap node).value[file.1.1]? = some file.1.2)
    (hrun : files.foldlM (listFile fuel user commFd wanted entry) s = .ok s') :
    s'.sent = s.sent ++ (files.flatMap (listed wanted entry)).map (Prod.mk commFd) := by
  induction files generalizing s with
  | nil =>
      obtain rfl := Except.ok.inj hrun
      rw [List.flatMap_nil, List.map_nil, List.append_nil]
  | cons file files ih =>
      rw [List.foldlM_cons] at hrun
      obtain ⟨t, hfirst, hrest⟩ := Run.bind_eq_ok.mp hrun
      obtain ⟨hfile, hfiles⟩ := List.forall_mem_cons.mp hfiles
      obtain ⟨ht, htablets, hvalues, hsent⟩ := listFile_ok h hresident hfile hfirst
      rw [ih ht htablets (by rwa [hvalues]) hrest, hsent, List.flatMap_cons, List.map_append, List.append_assoc]

theorem mem_of_mem_zipIdx {files : Map Str} (hfile : file ∈ files.toList.zipIdx) :
    files[file.1.1]? = some file.1.2 := by
  have hmem : file.1 ∈ files.toList := by
    rw [← List.zipIdx_map_fst 0 files.toList]
    exact List.mem_map_of_mem hfile
  exact ExtTreeMap.mem_toList_iff_getElem?_eq_some.mp hmem

theorem sent_listFiles (h : s.Wired) (hresident : s.tablets[user]? = some node)
    (hrun : s.listFiles fuel user commFd wanted entry = .ok s') :
    s'.sent = s.sent ++ (listing wanted entry (s.heap node).value).map (Prod.mk commFd) := by
  rw [listFiles_eq hresident] at hrun
  exact sent_listFile h hresident (fun file hfile => mem_of_mem_zipIdx hfile) hrun

/-- A listing is empty, or ends the way its entries do. -/
theorem listed_cases {tail : Str}
    (hentry : ∀ file ∈ files, wanted file.1.1 = true → tail <:+ entry file.1.1 file.1.2) :
    (∀ file ∈ files, wanted file.1.1 = false) ∧ (files.flatMap (listed wanted entry)).flatten = [] ∨
      (∃ file ∈ files, wanted file.1.1 = true) ∧ tail <:+ (files.flatMap (listed wanted entry)).flatten := by
  induction files with
  | nil => exact Or.inl ⟨fun _ hmem => absurd hmem List.not_mem_nil, rfl⟩
  | cons file files ih =>
      obtain ⟨hfirst, hrest⟩ := List.forall_mem_cons.mp hentry
      rw [List.flatMap_cons, List.flatten_append]
      rcases ih hrest with ⟨hnone, hempty⟩ | ⟨⟨other, hother, hwanted⟩, hsuffix⟩
      · rw [hempty, List.append_nil]
        cases hwanted : wanted file.1.1 with
        | false =>
            refine Or.inl ⟨List.forall_mem_cons.mpr ⟨hwanted, hnone⟩, ?_⟩
            rw [listed, hwanted, if_neg Bool.false_ne_true, List.flatten_nil]
        | true =>
            refine Or.inr ⟨⟨file, List.mem_cons_self, hwanted⟩, ?_⟩
            rw [listed, hwanted, if_pos rfl, List.flatten_append, List.flatten_singleton]
            exact (hfirst hwanted).trans (List.suffix_append _ _)
      · exact Or.inr ⟨⟨other, List.mem_cons_of_mem _ hother, hwanted⟩, hsuffix.trans (List.suffix_append _ _)⟩

theorem listing_cases {tail : Str} {files : Map Str}
    (hentry : ∀ filename value : Str, files[filename]? = some value → wanted filename = true →
      tail <:+ entry filename value) :
    (∀ filename ∈ files, wanted filename = false) ∧ (listing wanted entry files).flatten = [] ∨
      (∃ filename ∈ files, wanted filename = true) ∧ tail <:+ (listing wanted entry files).flatten := by
  have hentries : ∀ file ∈ files.toList.zipIdx, wanted file.1.1 = true → tail <:+ entry file.1.1 file.1.2 :=
    fun file hfile => hentry _ _ (mem_of_mem_zipIdx hfile)
  refine (listed_cases hentries).imp (And.imp_left fun hnone filename hmem => ?_) (And.imp_left fun ⟨file, hfile, hwanted⟩ => ?_)
  · obtain ⟨value, hvalue⟩ := Option.isSome_iff_exists.mp (ExtTreeMap.isSome_getElem?_iff_mem.mpr hmem)
    have hmem : (filename, value) ∈ files.toList := ExtTreeMap.mem_toList_iff_getElem?_eq_some.mpr hvalue
    rw [← List.zipIdx_map_fst 0 files.toList] at hmem
    obtain ⟨file, hfile, heq⟩ := List.mem_map.mp hmem
    have hwanted := hnone file hfile
    rwa [heq] at hwanted
  · have hvalue := mem_of_mem_zipIdx hfile
    exact ⟨file.1.1, ExtTreeMap.isSome_getElem?_iff_mem.mp (Option.isSome_of_eq_some hvalue), hwanted⟩

/-- The files that a listing of a type names. -/
def isOfType (type filename : Str) : Bool :=
  (type = "email".toList && isEmail filename) || (type = "file".toList && !isEmail filename)

/-- What `getlist` sends of a file. -/
def typeEntry (filename value : Str) : Str := filename ++ ',' :: (value ++ [','])

theorem getlist_eq {type : Str} : s.getlist fuel user type commFd = s.listFiles fuel user commFd (isOfType type) typeEntry :=
  rfl

end LRUCache

end PennCloud
