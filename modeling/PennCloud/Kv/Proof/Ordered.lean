import PennCloud.Kv.Proof.Tidy

/-!
# The list and the tablets

The list between the sentinels should hold exactly the nodes that the tablets map to. `get_helper`
takes a node off the list before it moves it to the tail, a new node is on no list, and an eviction
drops the node it takes the tablets entry of: these keep the agreement. `put_helper` moves the node of
a resident user without taking it off, and `dele` erases the tablets entry of an emptied user and
leaves its node: these break it. A run that does neither keeps it.
-/

namespace PennCloud.LRUCache

open DList Std

variable {s s' t : LRUCache} {user filename value u : Str} {r p x n : Ref} {l l' : List Ref}
  {fuel : Nat} {commFd seqNum : Int} {external : Bool}

/-! ### The nodes of the residents -/

/-- The list holds exactly the nodes that the tablets map their own key to. -/
def Lists (s : LRUCache) (l : List Ref) : Prop := ∀ r, r ∈ l ↔ s.tablets[(s.heap r).key]? = some r

theorem Lists.resident (h : s.Lists l) (hr : r ∈ l) : s.tablets[(s.heap r).key]? = some r :=
  (h r).mp hr

theorem Lists.mem (h : s.Lists l) (htidy : s.Tidy) (hresident : s.tablets[u]? = some r) : r ∈ l := by
  rw [h r, htidy.keyed u r hresident, hresident]

theorem Lists.perm (h : s.Lists l) (hperm : l.Perm l') : s.Lists l' :=
  fun r => hperm.mem_iff.symm.trans (h r)

theorem Lists.congr (h : s.Lists l) (htablets : s'.tablets = s.tablets)
    (hkeys : ∀ r, (s'.heap r).key = (s.heap r).key) : s'.Lists l := by
  intro r
  rw [hkeys, htablets]
  exact h r

theorem Lists.fresh_notMem (h : s.Lists l) (htidy : s.Tidy) :
    Ref.node s.nodes ∉ Ref.head :: Ref.tail :: l := by
  intro hmem
  simp only [List.mem_cons, reduceCtorEq, false_or] at hmem
  exact htidy.ne_fresh (h.resident hmem) rfl

theorem Lists.addNode (h : s.Lists l) (habsent : s.tablets[user]? = none) :
    (s.addNode user filename value).Lists (l ++ [.node s.nodes]) := by
  intro r
  rw [List.mem_append, List.mem_singleton, addNode_tablets]
  by_cases hr : r = .node s.nodes
  · subst hr
    simp
  · rw [addNode_heap hr]
    simp only [hr, or_false]
    split
    · next heq =>
        constructor
        · intro hmem
          have hresident := h.resident hmem
          rw [← heq, habsent] at hresident
          exact absurd hresident.symm (Option.some_ne_none r)
        · intro heq'
          exact absurd (Option.some.inj heq').symm hr
    · exact h r

theorem Lists.dropped (h : s.Lists (x :: l)) (hnodup : (x :: l).Nodup)
    (hstep : ChunkStep .virtualMemory (s.heap x).key s t) : (t.dropped x n).Lists l := by
  intro r
  rw [dropped_tablets, dropped_key, hstep.heap, hstep.tablets, SortedMap.getElem?_erase_eq]
  have hx := h.resident List.mem_cons_self
  split
  · next heq =>
      constructor
      · intro hmem
        have hr := h.resident (List.mem_cons_of_mem x hmem)
        rw [← heq, hx] at hr
        obtain rfl := Option.some.inj hr
        exact absurd hmem (List.nodup_cons.mp hnodup).1
      · exact fun hnone => absurd hnone.symm (Option.some_ne_none r)
  · next hne =>
      rw [← h r, List.mem_cons]
      constructor
      · exact Or.inr
      · rintro (rfl | hmem)
        · exact absurd rfl hne
        · exact hmem

/-! ### The invariant -/

/-- Both directions of the list visit exactly the nodes of the resident users. -/
def Agrees (s : LRUCache) : Prop := ∃ l, WellFormed s.links .head .tail l ∧ s.Lists l

structure Ordered (s : LRUCache) : Prop where
  tidy : s.Tidy
  bottom : s.links.next .tail = none
  agrees : s.Agrees

/-- No trace of the user. -/
def Unknown (s : LRUCache) (user : Str) : Prop := s.tablets[user]? = none ∧ s.virmemMeta[user]? = none

theorem Ordered.congr (h : s.Ordered) (hheap : s'.heap = s.heap) (hnodes : s'.nodes = s.nodes)
    (htablets : s'.tablets = s.tablets) (hvirmem : s'.virmemMeta = s.virmemMeta) : s'.Ordered := by
  have hkeys : ∀ r, (s'.heap r).key = (s.heap r).key := fun r => by rw [hheap]
  have hlinks : s'.links = s.links := by rw [links, hheap, links]
  obtain ⟨l, hlist, hlists⟩ := h.agrees
  refine ⟨h.tidy.congr hnodes htablets hkeys hvirmem, hlinks ▸ h.bottom, l, hlinks ▸ hlist, ?_⟩
  exact hlists.congr htablets hkeys

theorem Ordered.setValue (h : s.Ordered) (files : Map Str) : (s.setValue r files).Ordered := by
  obtain ⟨l, hlist, hlists⟩ := h.agrees
  refine ⟨h.tidy.setValue, by rw [links_setValue, h.bottom], l, by rwa [links_setValue], ?_⟩
  exact hlists.congr rfl fun _ => setValue_key

/-- A state whose list is known. -/
structure Listed (s : LRUCache) (l : List Ref) : Prop where
  tidy : s.Tidy
  bottom : s.links.next .tail = none
  list : WellFormed s.links .head .tail l
  lists : s.Lists l

theorem Listed.ordered (h : s.Listed l) : s.Ordered := ⟨h.tidy, h.bottom, l, h.list, h.lists⟩

theorem Ordered.exists_listed (h : s.Ordered) : ∃ l, s.Listed l := by
  obtain ⟨l, hlist, hlists⟩ := h.agrees
  exact ⟨l, h.tidy, h.bottom, hlist, hlists⟩

/-- The user written out is the first of the list. -/
theorem Listed.useVirtualMemory (h : s.Listed l) (hrun : s.useVirtualMemory = .ok s') :
    ∃ x l', l = x :: l' ∧ s'.Listed l' ∧ (∀ r, (s'.heap r).key = (s.heap r).key) ∧
      ∀ u, s.Unknown u → s'.Unknown u := by
  obtain ⟨x, n, t, hx, hn, hwrite, rfl⟩ := useVirtualMemory_ok hrun
  have hstep := chunkStep_writeToChunkWith hwrite
  have hlinks : t.links = s.links := by rw [links, hstep.heap, links]
  obtain ⟨htidy, hbottom, hlist, hlists⟩ := h
  cases l with
  | nil =>
      -- an empty list would make the tail the first node, and nothing stands behind it
      obtain rfl : x = .tail := Option.some.inj (hx.symm.trans hlist.path)
      exact absurd (hbottom.symm.trans hn) (Option.some_ne_none n).symm
  | cons y l =>
      obtain rfl : x = y := Option.some.inj (hx.symm.trans hlist.path.1)
      have hnext := (hlist.neighbours (l := [])).2
      obtain rfl : n = l.headD .tail := Option.some.inj (hn.symm.trans hnext)
      have hnodup : (x :: l).Nodup := hlist.forward.nodup_nodes
      refine ⟨x, l, rfl, ⟨htidy.dropped hstep, ?_, ?_, hlists.dropped hnodup hstep⟩, fun r => ?_, ?_⟩
      · rw [dropped_links, hlinks, Links.bypass_next, Function.update_of_ne (by simp), hbottom]
      · rw [dropped_links, hlinks]
        exact hlist.bypass (l := [])
      · rw [dropped_key, hstep.heap]
      · rintro u ⟨htablets, hvirmem⟩
        have hne : u ≠ (s.heap x).key := by
          rintro rfl
          rw [hlists.resident List.mem_cons_self] at htablets
          exact Option.some_ne_none x htablets
        refine ⟨?_, ?_⟩
        · rw [dropped_tablets, SortedMap.getElem?_erase_eq, hstep.tablets, htablets, ite_self]
        · exact (hstep.records u hne).trans hvirmem

theorem Ordered.useVirtualMemory (h : s.Ordered) (hrun : s.useVirtualMemory = .ok s') :
    s'.Ordered ∧ ∀ u, s.Unknown u → s'.Unknown u := by
  obtain ⟨l, hlisted⟩ := h.exists_listed
  obtain ⟨_, _, _, hlisted', _, hkept⟩ := hlisted.useVirtualMemory hrun
  exact ⟨hlisted'.ordered, hkept⟩

theorem Listed.insertUser (h : s.Listed l) (hunknown : s.Unknown user)
    (hrun : s.insertUser user filename value = .ok s') :
    s'.Listed (l ++ [.node s.nodes]) ∧ (∀ r ∈ l, (s'.heap r).key = (s.heap r).key) ∧
      s'.tablets[user]? = some (.node s.nodes) ∧ (s'.heap (.node s.nodes)).key = user ∧
      (s'.heap (.node s.nodes)).value = (∅ : Map Str).insert filename value := by
  obtain ⟨p, hp, rfl⟩ := insertUser_ok hrun
  obtain ⟨htidy, hbottom, hlist, hlists⟩ := h
  have hfresh := hlists.fresh_notMem htidy
  obtain rfl : p = l.getLastD .head := Option.some.inj (hp.symm.trans hlist.forward.last)
  have hne : ∀ r ∈ Ref.head :: Ref.tail :: l, r ≠ .node s.nodes := fun r hr heq => hfresh (heq ▸ hr)
  have hadded : WellFormed (s.addNode user filename value).links .head .tail l := by
    refine hlist.congr (fun r hr => ?_) (fun r hr => ?_)
    · have hr' := hne r ((List.Sublist.cons_cons _ (List.sublist_cons_self _ l)).subset hr)
      rw [addNode_next hr']
    · rw [addNode_prev (hne r (List.mem_cons_of_mem _ hr))]
  refine ⟨⟨(htidy.addNode hunknown.2).toTail, ?_, hadded.moveToTail hfresh, ?_⟩, fun r hr => ?_, ?_, ?_, ?_⟩
  · have hbottom : (s.addNode user filename value).links.next .tail = none := by
      rw [addNode_next (by simp), hbottom]
    rw [toTail_links, Links.moveToTail_next, Function.update_of_ne (by simp),
      Function.update_of_ne hlist.forward.getLastD_ne_tail.symm, hbottom]
  · exact (hlists.addNode hunknown.1).congr rfl fun _ => rfl
  · rw [toTail_key, addNode_heap (hne r (List.mem_cons_of_mem _ (List.mem_cons_of_mem _ hr)))]
  · rw [toTail_tablets, addNode_tablets, if_pos rfl]
  · rw [toTail_key, addNode_heap_self]
  · rw [toTail_value, addNode_heap_self]

theorem Ordered.insertUser (h : s.Ordered) (hunknown : s.Unknown user)
    (hrun : s.insertUser user filename value = .ok s') :
    s'.Ordered ∧ ∃ r, s'.tablets[user]? = some r ∧
      (s'.heap r).value = (∅ : Map Str).insert filename value := by
  obtain ⟨l, hlisted⟩ := h.exists_listed
  obtain ⟨hlisted', _, hresident, _, hvalue⟩ := hlisted.insertUser hunknown hrun
  exact ⟨hlisted'.ordered, _, hresident, hvalue⟩

/-- Taking the node of a user off the list and moving it to the tail. -/
theorem Listed.detach_moveToTail (h : s.Listed l) (hresident : s.tablets[user]? = some r)
    (hdetach : s.detach r = .ok t) (hmove : t.moveToTail r = .ok s') :
    ∃ l₁ l₂, l = l₁ ++ r :: l₂ ∧ s'.Listed (l₁ ++ l₂ ++ [r]) ∧ ∃ L, s' = s.relink L := by
  obtain ⟨htidy, hbottom, hlist, hlists⟩ := h
  obtain ⟨p, n, q, hprev, hnext, hq, rfl⟩ := detach_moveToTail_ok (htidy.ne_tail hresident) hdetach hmove
  obtain ⟨l₁, l₂, rfl⟩ := List.append_of_mem (hlists.mem htidy hresident)
  obtain ⟨hprev', hnext'⟩ := hlist.neighbours
  obtain rfl : p = l₁.getLastD .head := Option.some.inj (hprev.symm.trans hprev')
  obtain rfl : n = l₂.headD .tail := Option.some.inj (hnext.symm.trans hnext')
  have hrest := hlist.bypass
  obtain rfl : q = (l₁ ++ l₂).getLastD .head := Option.some.inj (hq.symm.trans hrest.forward.last)
  have hperm : (l₁ ++ r :: l₂).Perm (l₁ ++ l₂ ++ [r]) := by
    rw [List.append_assoc]
    have hswap : ([r] ++ l₂).Perm (l₂ ++ [r]) := List.perm_append_comm
    exact hswap.append_left l₁
  have hnotMem : r ∉ Ref.head :: Ref.tail :: (l₁ ++ l₂) := by
    have hnodup := ((hperm.cons _).cons _).nodup hlist.nodup
    rw [← List.cons_append, ← List.cons_append, List.nodup_append] at hnodup
    exact fun hmem => hnodup.2.2 r hmem r (List.mem_singleton.mpr rfl) rfl
  refine ⟨l₁, l₂, rfl, ⟨htidy.congr rfl rfl (fun _ => rfl) rfl, ?_, hrest.moveToTail hnotMem, ?_⟩, _, rfl⟩
  · have hne : Ref.tail ≠ r := (htidy.ne_tail hresident).symm
    have hp : Ref.tail ≠ l₁.getLastD .head := by
      intro heq
      have hmem : Ref.tail ∈ Ref.head :: l₁ := heq ▸ List.getLastD_mem_cons
      simp only [List.mem_cons, reduceCtorEq, false_or] at hmem
      exact hlist.forward.tail_notMem (List.mem_cons_of_mem _ (List.mem_append_left _ hmem))
    rw [links_relink, Links.moveToTail_next, Function.update_of_ne hne,
      Function.update_of_ne hrest.forward.getLastD_ne_tail.symm, Links.bypass_next,
      Function.update_of_ne hp, hbottom]
  · exact (hlists.perm hperm).congr rfl fun _ => rfl

theorem Ordered.detach_moveToTail (h : s.Ordered) (hresident : s.tablets[user]? = some r)
    (hdetach : s.detach r = .ok t) (hmove : t.moveToTail r = .ok s') :
    s'.Ordered ∧ ∃ L, s' = s.relink L := by
  obtain ⟨l, hlisted⟩ := h.exists_listed
  obtain ⟨_, _, _, hlisted', hlinks⟩ := hlisted.detach_moveToTail hresident hdetach hmove
  exact ⟨hlisted'.ordered, hlinks⟩

/-! ### The commands -/

theorem Unknown.congr (h : s.Unknown user) (htablets : s'.tablets = s.tablets)
    (hvirmem : s'.virmemMeta = s.virmemMeta) : s'.Unknown user :=
  ⟨by rw [htablets, h.1], by rw [hvirmem, h.2]⟩

theorem Ordered.putLoop (h : s.Ordered) (hunknown : s.Unknown user)
    (hrun : LRUCache.putLoop fuel s user filename value commFd external seqNum = .ok s') :
    s'.Ordered ∧ (external = false → ∃ r, s'.tablets[user]? = some r ∧
      (s'.heap r).value = (∅ : Map Str).insert filename value) := by
  induction fuel generalizing s with
  | zero => exact absurd hrun (by simp [LRUCache.putLoop])
  | succ fuel ih =>
      have htouched : (s.touched user external false).Ordered :=
        h.congr (touched_heap ..) (touched_nodes ..) (touched_tablets ..) (touched_virmemMeta ..)
      have hunknown' : (s.touched user external false).Unknown user :=
        hunknown.congr (touched_tablets ..) (touched_virmemMeta ..)
      rcases putLoop_succ_ok hrun with hdone | ⟨t, t', hroom, hevict, hrest⟩
      · rcases putHelper_ok hdone with ⟨_, hexternal, _, rfl⟩ | ⟨_, _, _, t, hplace, rfl⟩ | ⟨hstored, _⟩
        · refine ⟨htouched.congr rfl rfl rfl rfl, fun hinternal => ?_⟩
          simp [hinternal] at hexternal
        · rw [placeValue_unknown hunknown'.1 hunknown'.2] at hplace
          obtain ⟨hordered, r, hresident, hvalue⟩ := htouched.insertUser hunknown' hplace
          refine ⟨hordered.congr (charged_heap ..) (charged_nodes ..) (charged_tablets ..)
            (charged_virmemMeta ..), fun _ => ⟨r, ?_, ?_⟩⟩
          · rw [charged_tablets, hresident]
          · rw [charged_heap, hvalue]
        · exact absurd hstored (by simp)
      · rcases putHelper_ok hroom with ⟨hstored, _⟩ | ⟨hstored, _⟩ | ⟨_, _, _, rfl⟩
        · exact absurd hstored (by simp)
        · exact absurd hstored (by simp)
        · obtain ⟨hordered, hkept⟩ := htouched.useVirtualMemory hevict
          exact ih hordered (hkept user hunknown') hrest

/-- The put is refused before it changes anything. -/
def Refused (s : LRUCache) (user value : Str) : Prop :=
  toSize s.capacity < value.length ∨ s.exceedsQuota user value = true

instance (s : LRUCache) (user value : Str) : Decidable (s.Refused user value) :=
  inferInstanceAs (Decidable (_ ∨ _))

/-- Such a put answers, and changes nothing but an entry of `user_size`. -/
theorem put_of_refused (hrefused : s.Refused user value)
    (hrun : LRUCache.put fuel s user filename value commFd true seqNum = .ok s') :
    ∃ msg, (msg = "-ERR File size exceeds node capacity\r\n" ∨ msg = "-ERR Your storage exceeds node capacity\r\n") ∧
      (s' = s.servermsg msg commFd ∨ s' = (s.touched user true false).servermsg msg commFd) := by
  rcases put_ok hrun with ⟨_, rfl⟩ | ⟨hsmall, hloop⟩
  · exact ⟨_, Or.inl rfl, Or.inl rfl⟩
  · have hquota : s.exceedsQuota user value = true := hrefused.resolve_left (by omega)
    cases fuel with
    | zero => exact absurd hloop (by simp [LRUCache.putLoop])
    | succ fuel =>
        rcases putLoop_succ_ok hloop with hdone | ⟨t, t', hroom, _, _⟩
        · rcases putHelper_ok hdone with ⟨_, _, _, rfl⟩ | ⟨_, hnot, _⟩ | ⟨hstored, _⟩
          · exact ⟨_, Or.inr rfl, Or.inr rfl⟩
          · simp [hquota] at hnot
          · exact absurd hstored (by simp)
        · rcases putHelper_ok hroom with ⟨hstored, _⟩ | ⟨hstored, _⟩ | ⟨_, hnot, _⟩
          · exact absurd hstored (by simp)
          · exact absurd hstored (by simp)
          · simp [hquota] at hnot

theorem Ordered.put (h : s.Ordered) (hput : s.Refused user value ∨ s.Unknown user)
    (hrun : LRUCache.put fuel s user filename value commFd true seqNum = .ok s') : s'.Ordered := by
  rcases hput with hrefused | hunknown
  · obtain ⟨msg, _, rfl | rfl⟩ := put_of_refused hrefused hrun
    · exact h.congr rfl rfl rfl rfl
    · exact h.congr rfl rfl rfl rfl
  · rcases put_ok hrun with ⟨_, rfl⟩ | ⟨_, hloop⟩
    · exact h.congr rfl rfl rfl rfl
    · exact (h.putLoop hunknown hloop).1

/-- The user is not in virtual memory, or its row there gives one file at most. -/
def OneFile (s : LRUCache) (user : Str) : Prop :=
  s.virmemMeta[user]? ≠ none → (pairUp (Fields.pieces ',' (s.rowOnDisk user))).length ≤ 1

theorem eq_nil_or_singleton {files : List α} (hone : files.length ≤ 1) : files = [] ∨ ∃ file, files = [file] := by
  cases files with
  | nil => exact Or.inl rfl
  | cons file rest =>
      have hrest : rest = [] := List.eq_nil_of_length_eq_zero (Nat.le_zero.mp (Nat.le_of_succ_le_succ hone))
      exact Or.inr ⟨file, by rw [hrest]⟩

theorem Ordered.loadUserFromDisk (h : s.Ordered) (habsent : s.tablets[user]? = none)
    (hone : (pairUp (Fields.pieces ',' (s.rowOnDisk user))).length ≤ 1)
    (hrun : LRUCache.loadUserFromDisk fuel s .virtualMemory user commFd = .ok s')
    (hresident : s'.tablets[user]? = some r) :
    s'.Ordered ∧ (s'.heap r).value = s.filesOf user := by
  obtain ⟨row, hread, hrun⟩ := Run.bind_eq_ok.mp hrun
  have hrow : s.rowOnDisk user = row := rowOnDisk_of_readRow hread
  have hcleared : (s.clearMetadata .virtualMemory user).Ordered := by
    obtain ⟨l, hlist, hlists⟩ := h.agrees
    exact ⟨h.tidy.clearMetadata, h.bottom, l, hlist, hlists⟩
  have hunknown : (s.clearMetadata .virtualMemory user).Unknown user :=
    ⟨habsent, ExtTreeMap.getElem?_erase_self⟩
  rw [filesOf_of_absent habsent, filesOfRow]
  rw [hrow] at hone ⊢
  rw [restoreUserWith] at hrun
  rcases eq_nil_or_singleton hone with hpairs | ⟨file, hpairs⟩ <;> rw [hpairs]
  · rw [hpairs] at hrun
    obtain rfl := Except.ok.inj hrun
    exact absurd (hresident.symm.trans hunknown.1) (Option.some_ne_none r)
  · rw [hpairs, List.foldlM_cons] at hrun
    obtain ⟨t, hput, hrun⟩ := Run.bind_eq_ok.mp hrun
    obtain rfl := Except.ok.inj hrun
    rcases put_ok hput with ⟨_, rfl⟩ | ⟨_, hloop⟩
    · exact absurd (hresident.symm.trans hunknown.1) (Option.some_ne_none r)
    · obtain ⟨hordered, hplaced⟩ := hcleared.putLoop hunknown hloop
      obtain ⟨r', hresident', hvalue⟩ := hplaced rfl
      obtain rfl := Option.some.inj (hresident.symm.trans hresident')
      refine ⟨hordered, ?_⟩
      rw [hvalue]
      exact (addFile_of_none ExtTreeMap.getElem?_empty).symm

theorem Ordered.getHelper {found : Option Str} (h : s.Ordered) (hone : s.OneFile user)
    (hrun : LRUCache.getHelper fuel s user filename commFd = .ok (found, s')) :
    s'.Ordered ∧ found = s.view user filename ∧
      ∀ r, s'.tablets[user]? = some r → (s'.heap r).value = s.filesOf user := by
  rcases getHelper_ok hrun with ⟨habsent, hvirmem, rfl, rfl⟩ |
    ⟨t, r, t', t'', hfetched, hresident, hdetach, hmove, rfl, hs'⟩
  · refine ⟨h.congr rfl rfl rfl rfl, ?_, fun r hr => ?_⟩
    · rw [view, filesOf_of_absent habsent, rowOnDisk_of_none hvirmem]
      simp
    · exact absurd (hr.symm.trans habsent) (Option.some_ne_none r)
  · have hloaded : t.Ordered ∧ (t.heap r).value = s.filesOf user := by
      rw [fetched, ExtTreeMap.contains_eq_isSome_getElem?] at hfetched
      split at hfetched
      · next hvirmem =>
          have hvirmem : s.virmemMeta[user]? ≠ none := by
            rw [Option.isSome_iff_ne_none] at hvirmem
            exact hvirmem
          exact h.loadUserFromDisk (h.tidy.absent_of_virmem hvirmem) (hone hvirmem) hfetched hresident
      · obtain rfl := Except.ok.inj hfetched
        exact ⟨h, (filesOf_of_resident hresident).symm⟩
    obtain ⟨hordered, L, rfl⟩ := hloaded.1.detach_moveToTail hresident hdetach hmove
    rw [hs']
    refine ⟨hordered.congr rfl rfl rfl rfl, ?_, fun r' hr' => ?_⟩
    · rw [relink_value, hloaded.2]
      rfl
    · obtain rfl : r = r' := Option.some.inj (hresident.symm.trans hr')
      exact hloaded.2

/-- The exchange is refused in whatever state `get_helper` leaves with the old value found. -/
def ExchangeFails (s : LRUCache) (user filename oldValue newValue : Str) : Prop :=
  ∀ fuel commFd t, s.getHelper fuel user filename commFd = .ok (some oldValue, t) →
    (t.discharged user oldValue.length).exceedsQuota user newValue = true ∨
      (t.discharged user oldValue.length).fits newValue = false

/-- The step takes none of the branches that move a node without taking it off the list, and erases
no user. -/
def Undisturbed (s : LRUCache) : Op → Prop
  | .put user _ value _ _ => s.Refused user value ∨ s.Unknown user
  | .get user _ _ => s.OneFile user
  | .cput user filename oldValue newValue _ _ =>
      s.OneFile user ∧ s.ExchangeFails user filename oldValue newValue
  | .dele user filename _ _ _ =>
      s.OneFile user ∧ (s.view user filename ≠ none → ∃ other, other ≠ filename ∧ s.view user other ≠ none)
  | .rename user _ _ _ _ => s.OneFile user

theorem Ordered.exec {op : Op} (h : s.Ordered) (hop : s.Undisturbed op) (hrun : s.exec fuel op = .ok s') :
    s'.Ordered := by
  cases op with
  | put user filename value commFd seqNum => exact h.put hop hrun
  | get user filename commFd =>
      obtain ⟨found, t, hget, hs'⟩ := get_ok hrun
      rw [hs']
      exact (h.getHelper hop hget).1.congr rfl rfl rfl rfl
  | cput user filename oldValue newValue commFd seqNum =>
      obtain ⟨found, t, hget, hcase⟩ := cput_ok hrun
      have ht := (h.getHelper hop.1 hget).1
      rcases hcase with ⟨_, hs'⟩ | ⟨rfl, stored, hput⟩
      · rw [hs']
        exact ht.congr rfl rfl rfl rfl
      · have hfails := hop.2 fuel commFd t hget
        rcases putHelper_ok hput with ⟨_, _, _, rfl⟩ | ⟨_, hquota, hfits, _⟩ | ⟨_, _, _, rfl⟩
        · exact ht.congr rfl rfl rfl rfl
        · rcases hfails with hfails | hfails
          · simp [hfails] at hquota
          · simp [hfails] at hfits
        · exact ht.congr rfl rfl rfl rfl
  | dele user filename commFd seqNum isMigration =>
      obtain ⟨found, t, hget, hcase⟩ := dele_ok hrun
      obtain ⟨ht, hfound, hfiles⟩ := h.getHelper hop.1 hget
      rcases hcase with ⟨_, rfl⟩ | ⟨value, r, rfl, hresident, hs'⟩
      · exact ht
      · have hrest : ((t.heap r).value.erase filename).isEmpty = false := by
          obtain ⟨other, hne, hother⟩ := hop.2 (hfound ▸ Option.some_ne_none value)
          rw [Bool.eq_false_iff]
          intro hempty
          have hnone : ((t.heap r).value.erase filename)[other]? = none := by
            rw [ExtTreeMap.isEmpty_iff.mp hempty]
            exact ExtTreeMap.getElem?_empty
          rw [SortedMap.getElem?_erase_eq, if_neg (Ne.symm hne), hfiles r hresident] at hnone
          exact hother hnone
        have htablets : (t.fileErased user filename r).tablets = t.tablets := by
          rw [fileErased, hrest]
          rfl
        rw [hs']
        exact (ht.setValue (r := r) _).congr rfl rfl htablets rfl
  | rename user oldFilename newFilename commFd seqNum =>
      obtain ⟨found, t, hget, hcase⟩ := rename_ok hrun
      have ht := (h.getHelper hop hget).1
      rcases hcase with ⟨_, rfl⟩ | ⟨value, r, _, _, hs'⟩
      · exact ht
      · rw [hs']
        exact (ht.setValue (r := r) _).congr rfl rfl rfl rfl

/-! ### Runs -/

/-- A command that returns, in a state that meets a condition. -/
def Steps (condition : LRUCache → Op → Prop) (s : LRUCache) (op : Op) (s' : LRUCache) : Prop :=
  condition s op ∧ ∃ fuel, s.exec fuel op = .ok s'

/-- The commands return from states that meet the condition, and the last state passes a test. -/
def endsIn (condition : LRUCache → Op → Prop) [∀ s op, Decidable (condition s op)] (fuel : Nat) (s : LRUCache)
    (ops : List Op) (test : LRUCache → Bool) : Bool :=
  match ops.foldlM (fun s op => if condition s op then s.exec fuel op else .error .exited) s with
  | .ok t => test t
  | .error _ => false

theorem runs_of_endsIn {condition : LRUCache → Op → Prop} [∀ s op, Decidable (condition s op)] {fuel : Nat}
    {ops : List Op} {test : LRUCache → Bool} (hends : endsIn condition fuel s ops test = true) :
    ∃ t, Run.Runs (Steps condition) s ops t ∧ test t = true := by
  rw [endsIn] at hends
  split at hends
  · next t hrun =>
      refine ⟨t, Run.Runs.of_foldlM (fun op _ s s' hstep => ?_) hrun, hends⟩
      split at hstep
      · next hmet => exact ⟨hmet, fuel, hstep⟩
      · exact absurd hstep (by simp)
  · exact absurd hends Bool.false_ne_true

theorem runs_of_endsIn_all (condition : Op → Prop) {fuel : Nat} {ops : List Op} {test : LRUCache → Bool}
    (hends : endsIn (fun _ _ => True) fuel s ops test = true) (hops : ∀ op ∈ ops, condition op) :
    ∃ t, Run.Runs (Steps fun _ op => condition op) s ops t ∧ test t = true := by
  rw [endsIn] at hends
  split at hends
  · next t hrun => exact ⟨t, Run.Runs.of_foldlM (fun op hop s s' hstep => ⟨hops op hop, fuel, (if_pos trivial).symm.trans hstep⟩) hrun, hends⟩
  · exact absurd hends Bool.false_ne_true

theorem ordered_init {capacity : Int} {isPrimary : Bool} {chunkInfo : ChunkType → List Int} {disk : Disk} :
    (init capacity isPrimary chunkInfo disk).Ordered := by
  refine ⟨tidy_init, rfl, [], ⟨by decide, rfl, rfl⟩, fun r => ?_⟩
  simp [init]

/-- In every state of a run that moves no node while it is on the list and erases no user, the list
and the tablets agree. -/
theorem agrees_of_run {capacity : Int} {isPrimary : Bool} {chunkInfo : ChunkType → List Int} {disk : Disk}
    {ops : List Op}
    (hrun : Run.Runs (Steps Undisturbed) (init capacity isPrimary chunkInfo disk) ops s) : s.Agrees := by
  have hordered : s.Ordered := by
    refine hrun.invariant (P := fun _ s => s.Ordered) ordered_init ?_
    rintro ops t op t' ht ⟨hop, fuel, hexec⟩
    exact ht.exec hop hexec
  exact hordered.agrees

/-- A put for a user of whom there is no trace, or a get of a user with one file. -/
def FirstPutOrGet (s : LRUCache) : Op → Prop
  | .put user _ _ _ _ => s.Unknown user
  | .get user _ _ => s.OneFile user
  | _ => False

instance (s : LRUCache) (user : Str) : Decidable (s.Unknown user) :=
  inferInstanceAs (Decidable (_ ∧ _))

instance (s : LRUCache) (user : Str) : Decidable (s.OneFile user) :=
  inferInstanceAs (Decidable (_ → _))

instance (s : LRUCache) : (op : Op) → Decidable (s.FirstPutOrGet op)
  | .put user _ _ _ _ => inferInstanceAs (Decidable (s.Unknown user))
  | .get user _ _ => inferInstanceAs (Decidable (s.OneFile user))
  | .cput _ _ _ _ _ _ => isFalse id
  | .dele _ _ _ _ _ => isFalse id
  | .rename _ _ _ _ _ => isFalse id

theorem undisturbed_of_firstPutOrGet {op : Op} (hop : s.FirstPutOrGet op) : s.Undisturbed op := by
  cases op with
  | put => exact Or.inr hop
  | get => exact hop
  | cput => exact absurd hop id
  | dele => exact absurd hop id
  | rename => exact absurd hop id

/-- The third user's value evicts the first user, which comes back in place of the second. -/
theorem agrees_of_run_reload : ∃ s : LRUCache, s.tablets["u".toList]? ≠ none ∧ s.virmemMeta["v".toList]? ≠ none ∧
    s.tablets["w".toList]? ≠ none ∧ s.Agrees := by
  have hends : endsIn FirstPutOrGet 5 (fresh 10 true) [.put "u".toList "f".toList "abc".toList 3 0,
      .put "v".toList "g".toList "ddddd".toList 3 0, .put "w".toList "h".toList "eeee".toList 3 0,
      .get "u".toList "f".toList 3]
      (fun s => decide (s.tablets["u".toList]? ≠ none ∧ s.virmemMeta["v".toList]? ≠ none ∧
        s.tablets["w".toList]? ≠ none)) = true := by
    decide +kernel
  obtain ⟨s, hsteps, hstate⟩ := runs_of_endsIn hends
  obtain ⟨hu, hv, hw⟩ := of_decide_eq_true hstate
  have hundisturbed : Run.Runs (Steps Undisturbed) (fresh 10 true) _ s :=
    hsteps.mono fun _ _ _ hstep => ⟨undisturbed_of_firstPutOrGet hstep.1, hstep.2⟩
  exact ⟨s, hu, hv, hw, agrees_of_run hundisturbed⟩

/-- A second put to the same user makes its node its own predecessor. -/
theorem not_agrees_put_put :
    ¬ ∀ ops s, Run.Runs (Steps fun _ _ => True) (fresh 10 true) ops s → s.Agrees := by
  intro hall
  have hrun : ∃ s, Run.Runs (Steps fun _ _ => True) (fresh 10 true)
      [.put "u".toList "f".toList "v".toList 3 0, .put "u".toList "f".toList "w".toList 3 0] s ∧
      s.links.prev .tail = some (.node 0) ∧ s.links.prev (.node 0) = some (.node 0) :=
    ⟨_, .snoc (.snoc .nil ⟨trivial, 1, rfl⟩) ⟨trivial, 1, rfl⟩, rfl, rfl⟩
  obtain ⟨s, hrun, htail, hnode⟩ := hrun
  obtain ⟨l, hlist, _⟩ := hall _ s hrun
  have hback := hlist.back
  have hnodup : l.reverse.Nodup := by
    rw [List.nodup_reverse]
    exact hlist.forward.nodup_nodes
  match hrev : l.reverse with
  | [] =>
      rw [hrev] at hback
      exact absurd (htail.symm.trans hback) (by simp)
  | [x] =>
      rw [hrev] at hback
      obtain rfl : Ref.node 0 = x := Option.some.inj (htail.symm.trans hback.1)
      exact absurd (hnode.symm.trans hback.2) (by simp)
  | x :: y :: rest =>
      rw [hrev] at hback hnodup
      obtain rfl : Ref.node 0 = x := Option.some.inj (htail.symm.trans hback.1)
      obtain rfl : Ref.node 0 = y := Option.some.inj (hnode.symm.trans hback.2.1)
      exact (List.nodup_cons.mp hnodup).1 List.mem_cons_self

end PennCloud.LRUCache
