import PennCloud.Kv.Proof.Guarded
import PennCloud.Kv.Proof.Limit
import PennCloud.Lib.Recency

/-!
# Evicting the least recently used

While no node is moved that is still on the list, the list is the residents in the order of their last
puts and gets, so that its first node, the one that is evicted, is the user whose last access is oldest.
The second put for a resident user, and the second file of a user that is loaded, move a node that is on
the list; the nodes that stood behind it are then no longer reached from the head.
-/

namespace PennCloud.LRUCache

open DList Recency
open Std (ExtTreeMap)

variable {s s' t : LRUCache} {user filename value u : Str} {r p x n : Ref} {l : List Ref} {uses : List Str}
  {fuel : Nat} {commFd seqNum : Int} {external : Bool}

/-- The user that is evicted next is resident, and by a history that begins with the latest access every
other resident user has been accessed since. -/
def OldestFirst (uses : List Str) (s : LRUCache) : Prop :=
  match s.links.next .head with
  | some x => s.tablets[(s.heap x).key]? = some x ∧
      ∀ entry ∈ s.tablets.toList, entry.1 ≠ (s.heap x).key → Older uses (s.heap x).key entry.1
  | none => False

instance (uses : List Str) (a b : Str) : Decidable (Older uses a b) := inferInstanceAs (Decidable (_ < _))

instance (uses : List Str) : DecidablePred (OldestFirst uses) := fun s => by
  unfold OldestFirst
  cases s.links.next .head with
  | some x => exact inferInstanceAs (Decidable (_ ∧ _))
  | none => exact isFalse id

/-- The list holds the residents in the order of their last accesses. -/
structure Queue (s : LRUCache) (l : List Ref) (uses : List Str) : Prop where
  listed : s.Listed l
  sorted : Sorted uses (l.map fun r => (s.heap r).key)

theorem Lists.key_notMem (h : s.Lists l) (habsent : s.tablets[user]? = none) :
    user ∉ l.map fun r => (s.heap r).key := by
  intro hmem
  obtain ⟨r, hr, rfl⟩ := List.mem_map.mp hmem
  exact absurd ((h.resident hr).symm.trans habsent) (Option.some_ne_none r)

theorem Queue.other (h : s.Queue l uses) (habsent : s.tablets[user]? = none) : s.Queue l (user :: uses) :=
  ⟨h.listed, h.sorted.other (h.listed.lists.key_notMem habsent)⟩

theorem Queue.congr (h : s.Queue l uses) (hheap : s'.heap = s.heap) (hnodes : s'.nodes = s.nodes)
    (htablets : s'.tablets = s.tablets) (hvirmem : ∀ u : Str, s.virmemMeta[u]? = none → s'.virmemMeta[u]? = none) :
    s'.Queue l uses := by
  have hlinks : s'.links = s.links := by rw [links, hheap, links]
  obtain ⟨⟨htidy, hbottom, hlist, hlists⟩, hsorted⟩ := h
  refine ⟨⟨⟨fun u r hu => ?_, fun u r hu => ?_, fun u r hu => ?_⟩, ?_, ?_, ?_⟩, ?_⟩
  · obtain ⟨i, hi, hr⟩ := htidy.allocated u r (htablets ▸ hu)
    exact ⟨i, hnodes ▸ hi, hr⟩
  · rw [hheap, htidy.keyed u r (htablets ▸ hu)]
  · exact hvirmem u (htidy.disjoint u r (htablets ▸ hu))
  · rw [hlinks, hbottom]
  · rwa [hlinks]
  · exact hlists.congr htablets fun r => by rw [hheap]
  · rwa [hheap]

theorem Queue.touched {isCPUT : Bool} (h : s.Queue l uses) : (s.touched user external isCPUT).Queue l uses :=
  h.congr (touched_heap ..) (touched_nodes ..) (touched_tablets ..) fun u hu => by rwa [touched_virmemMeta]

/-! ### The steps -/

theorem Queue.oldestFirst (h : s.Queue (x :: l) uses) : OldestFirst uses s := by
  obtain ⟨⟨htidy, _, hlist, hlists⟩, hsorted⟩ := h
  have hx : s.links.next .head = some x := hlist.path.1
  rw [OldestFirst, hx]
  refine ⟨hlists.resident List.mem_cons_self, fun entry hentry hne => ?_⟩
  have hresident : s.tablets[entry.1]? = some entry.2 := ExtTreeMap.mem_toList_iff_getElem?_eq_some.mp hentry
  have hmem := hlists.mem htidy hresident
  have hkey := htidy.keyed _ _ hresident
  rcases List.mem_cons.mp hmem with heq | hmem
  · rw [← heq, hkey] at hne
    exact absurd rfl hne
  · refine hsorted.older (b := entry.1) ?_
    exact List.mem_map.mpr ⟨entry.2, hmem, hkey⟩

theorem Queue.useVirtualMemory (h : s.Queue l uses) (hrun : s.useVirtualMemory = .ok s') :
    (∃ l', s'.Queue l' uses) ∧ ∀ u, s.Unknown u → s'.Unknown u := by
  obtain ⟨x, l', rfl, hlisted, hkeys, hkept⟩ := h.listed.useVirtualMemory hrun
  refine ⟨⟨l', hlisted, ?_⟩, hkept⟩
  have hrest := h.sorted.of_cons
  simpa only [hkeys] using hrest

theorem Queue.insertUser (h : s.Queue l uses) (hunknown : s.Unknown user)
    (hrun : s.insertUser user filename value = .ok s') : ∃ l', s'.Queue l' (user :: uses) := by
  obtain ⟨hlisted, hkeys, _, hkey, _⟩ := h.listed.insertUser hunknown hrun
  refine ⟨_, hlisted, ?_⟩
  have hsame : (l.map fun r => (s'.heap r).key) = l.map fun r => (s.heap r).key := List.map_congr_left hkeys
  rw [List.map_append, List.map_singleton, hkey, hsame]
  exact h.sorted.concat (h.listed.lists.key_notMem hunknown.1)

/-- Taking a node off and moving it to the tail makes its user the latest. -/
theorem Queue.move (h : s.Queue l uses) (hresident : s.tablets[user]? = some r)
    (hdetach : s.detach r = .ok t) (hmove : t.moveToTail r = .ok s') : ∃ l', s'.Queue l' (user :: uses) := by
  obtain ⟨l₁, l₂, rfl, hlisted, L, rfl⟩ := h.listed.detach_moveToTail hresident hdetach hmove
  refine ⟨_, hlisted, ?_⟩
  have hkey := h.listed.tidy.keyed user r hresident
  have hsorted := h.sorted
  rw [List.map_append, List.map_cons, hkey] at hsorted
  have huser : user ∉ (l₁.map fun r => (s.heap r).key) ++ l₂.map fun r => (s.heap r).key := by
    rw [← List.map_append]
    intro hmem
    obtain ⟨r', hr', heq⟩ := List.mem_map.mp hmem
    have hlisted' : r' ∈ l₁ ++ r :: l₂ := by
      rcases List.mem_append.mp hr' with hr' | hr'
      · exact List.mem_append_left _ hr'
      · exact List.mem_append_right _ (List.mem_cons_of_mem r hr')
    have hown := h.listed.lists.resident hlisted'
    rw [heq, hresident] at hown
    obtain rfl := Option.some.inj hown
    have hnodup := hlisted.list.forward.nodup_nodes
    rw [List.nodup_append] at hnodup
    exact hnodup.2.2 r hr' r (List.mem_singleton.mpr rfl) rfl
  have hused := hsorted.use huser
  rw [List.map_append, List.map_append, List.map_singleton]
  rw [← hkey] at hused ⊢
  exact hused

/-! ### A put -/

theorem Bounded.exists_first (h : s.Bounded) (hlists : s.Lists l) (hvalue : value.length ≤ toSize s.capacity)
    (hfits : s.fits value = false) : ∃ x l', l = x :: l' := by
  cases l with
  | cons x l => exact ⟨x, l, rfl⟩
  | nil =>
      have htotal := residentTotal_of_lists_nil h.wired.tidy hlists
      have hnonneg := h.nonneg
      have hroom := hvalue
      rw [toSize_of_nonneg hnonneg h.small] at hroom
      have hfits' := (h.fits_iff hvalue).mpr (by omega)
      exact absurd (hfits.symm.trans hfits') Bool.false_ne_true

/-- Putting for a user of whom there is no trace: all that is evicted is oldest, and in the end the user is
the latest. -/
theorem Queue.putLoop (otherwise : LRUCache → Except Fault LRUCache) (h : s.Queue l uses) (hb : s.Bounded) (hunknown : s.Unknown user)
    (hvalue : value.length ≤ toSize s.capacity) :
    putLoopWith (evictIf (OldestFirst (user :: uses)) otherwise) fuel s user filename value commFd external seqNum =
        LRUCache.putLoop fuel s user filename value commFd external seqNum ∧
      ∀ s', LRUCache.putLoop fuel s user filename value commFd external seqNum = .ok s' →
        ∃ l', s'.Queue l' (user :: uses) := by
  induction fuel generalizing s l with
  | zero => exact ⟨rfl, fun s' hrun => absurd hrun (by simp [LRUCache.putLoop])⟩
  | succ fuel ih =>
      have ht : (s.touched user external false).Queue l uses := h.touched
      have hbounded : (s.touched user external false).Bounded := hb.touched
      have hunknown' : (s.touched user external false).Unknown user :=
        hunknown.congr (touched_tablets ..) (touched_virmemMeta ..)
      -- the call that finds no room, and what follows
      have hnext : ∀ t, s.putHelper (reload fuel commFd) user filename value commFd external false seqNum =
          .ok (false, t) → t.Queue l uses ∧ t.OldestFirst (user :: uses) ∧
            ∀ t', t.useVirtualMemory = .ok t' →
              ∃ l', t'.Queue l' uses ∧ t'.Bounded ∧ t'.Unknown user ∧ value.length ≤ toSize t'.capacity := by
        intro t hrun
        rcases putHelper_ok hrun with ⟨hstored, _⟩ | ⟨hstored, _⟩ | ⟨_, _, hfits, rfl⟩
        · exact absurd hstored (by simp)
        · exact absurd hstored (by simp)
        · have hlength : value.length ≤ toSize (s.touched user external false).capacity := by rwa [touched_capacity]
          have hfull : (s.touched user external false).fits value = false := by rwa [touched_fits]
          obtain ⟨x, l', rfl⟩ := hbounded.exists_first ht.listed.lists hlength hfull
          refine ⟨ht, (ht.other hunknown'.1).oldestFirst, fun t' hevict => ?_⟩
          obtain ⟨⟨l'', hqueue⟩, hkept⟩ := ht.useVirtualMemory hevict
          obtain ⟨_, _, _, hleft⟩ := hbounded.evict ht.listed.list.forward ht.listed.lists hevict
          exact ⟨l'', hqueue, hleft.bounded, hkept user hunknown', by rwa [hleft.capacity]⟩
      have hhelper : s.putHelper (reloadWith (evictIf (OldestFirst (user :: uses)) otherwise) fuel commFd) user
          filename value commFd external false seqNum =
            s.putHelper (reload fuel commFd) user filename value commFd external false seqNum :=
        putHelper_congr hunknown.2
      constructor
      · rw [putLoopWith_succ, putLoop_succ, hhelper]
        refine Run.bind_congr fun result hresult => ?_
        obtain ⟨stored, t⟩ := result
        cases stored with
        | true => rfl
        | false =>
            obtain ⟨_, holdest, hevicted⟩ := hnext t hresult
            have hguard : evictIf (OldestFirst (user :: uses)) otherwise t = t.useVirtualMemory := evictIf_pos holdest
            change evictIf (OldestFirst (user :: uses)) otherwise t >>= _ = t.useVirtualMemory >>= _
            rw [hguard]
            refine Run.bind_congr fun t' hevict => ?_
            obtain ⟨l', hqueue, hb', hunknown'', hvalue'⟩ := hevicted t' hevict
            exact (ih hqueue hb' hunknown'' hvalue').1
      · intro s' hrun
        rcases putLoop_succ_ok hrun with hdone | ⟨t, t', hlarge, hevict, hrest⟩
        · rcases putHelper_ok hdone with ⟨_, _, _, rfl⟩ | ⟨_, _, _, t, hplace, rfl⟩ | ⟨hstored, _⟩
          · exact ⟨l, (ht.other hunknown'.1).congr rfl rfl rfl fun _ => id⟩
          · rw [placeValue_unknown hunknown'.1 hunknown'.2] at hplace
            obtain ⟨l', hqueue⟩ := ht.insertUser hunknown' hplace
            exact ⟨l', hqueue.congr (charged_heap ..) (charged_nodes ..) (charged_tablets ..)
              fun u hu => by rwa [charged_virmemMeta]⟩
          · exact absurd hstored (by simp)
        · obtain ⟨_, _, hevicted⟩ := hnext t hlarge
          obtain ⟨l', hqueue, hb', hunknown'', hvalue'⟩ := hevicted t' hevict
          exact (ih hqueue hb' hunknown'' hvalue').2 s' hrest

/-! ### A get -/

theorem Queue.reload (otherwise : LRUCache → Except Fault LRUCache) (h : s.Queue l uses) (hb : s.Bounded) (hvirmem : s.virmemMeta[user]? ≠ none)
    (hone : (pairUp (Fields.pieces ',' (s.rowOnDisk user))).length ≤ 1) :
    reloadWith (evictIf (OldestFirst (user :: uses)) otherwise) fuel commFd s user =
        LRUCache.reload fuel commFd s user ∧
      ∀ s' r, LRUCache.reload fuel commFd s user = .ok s' → s'.tablets[user]? = some r →
        s'.Bounded ∧ ∃ l', s'.Queue l' (user :: uses) := by
  have habsent := h.listed.tidy.absent_of_virmem hvirmem
  have hquiet : Quiet s (s.clearMetadata .virtualMemory user) 0 := quiet_clearMetadata
  have hcleared : (s.clearMetadata .virtualMemory user).Queue l uses := h.congr rfl rfl rfl hquiet.still.virmem
  have hbounded : (s.clearMetadata .virtualMemory user).Bounded := hb.still hquiet.still rfl rfl
  have hunknown : (s.clearMetadata .virtualMemory user).Unknown user := ⟨habsent, ExtTreeMap.getElem?_erase_self⟩
  constructor
  · refine Run.bind_congr fun row hread => ?_
    have hrow : s.rowOnDisk user = row := rowOnDisk_of_readRow hread
    rw [hrow] at hone
    rw [restoreUserWith, restoreUserWith]
    rcases eq_nil_or_singleton hone with hpairs | ⟨file, hpairs⟩
    · rw [hpairs]
      rfl
    · rw [hpairs, List.foldlM_cons, List.foldlM_cons, put]
      refine congrArg (· >>= _) (putWith_congr fun hsmall => ?_)
      exact (hcleared.putLoop otherwise hbounded hunknown hsmall).1
  · intro s' r hrun hresident
    obtain ⟨row, hread, hrun⟩ := Run.bind_eq_ok.mp hrun
    have hrow : s.rowOnDisk user = row := rowOnDisk_of_readRow hread
    rw [hrow] at hone
    rw [restoreUserWith] at hrun
    rcases eq_nil_or_singleton hone with hpairs | ⟨file, hpairs⟩
    · rw [hpairs] at hrun
      obtain rfl := Except.ok.inj hrun
      exact absurd (hresident.symm.trans hunknown.1) (Option.some_ne_none r)
    · rw [hpairs, List.foldlM_cons] at hrun
      obtain ⟨t, hput, hrun⟩ := Run.bind_eq_ok.mp hrun
      obtain rfl := Except.ok.inj hrun
      rcases put_ok hput with ⟨_, rfl⟩ | ⟨hsmall, hloop⟩
      · exact absurd (hresident.symm.trans hunknown.1) (Option.some_ne_none r)
      · obtain ⟨l', hqueue⟩ := (hcleared.putLoop .ok hbounded hunknown hsmall).2 t hloop
        obtain ⟨p, hp, _⟩ := hbounded.wired.exists_prev
        have hbuilding : (s.clearMetadata .virtualMemory user).Building user ∅ :=
          ⟨Or.inl ⟨habsent, rfl⟩, hunknown.2, p, hp⟩
        have hopen : (Way.listed l).Open (s.clearMetadata .virtualMemory user) user ∅ (file.2.length + 0) := by
          rw [toSize_of_nonneg hbounded.nonneg hbounded.small] at hsmall
          have hnonneg := hbounded.nonneg
          rw [Way.Open, hunknown.1, Option.toList_none, List.append_nil, total_empty]
          exact ⟨hcleared.listed.list.forward, hcleared.listed.lists, by omega⟩
        exact ⟨(hbounded.putLoop_internal hbuilding hopen hloop).bounded, l', hqueue⟩

theorem Queue.getHelper {found : Option Str} (h : s.Queue l uses) (hb : s.Bounded) (hone : s.OneFile user)
    (hrun : s.getHelper fuel user filename commFd = .ok (found, s')) :
    s'.Bounded ∧ ∃ l', s'.Queue l' (user :: uses) := by
  rcases getHelper_ok hrun with ⟨habsent, _, _, rfl⟩ | ⟨t, r, t', t'', hfetched, hr, hdetach, hmove, _, hs'⟩
  · exact ⟨hb.sent _, l, (h.other habsent).congr rfl rfl rfl fun _ => id⟩
  · have hloaded : t.Bounded ∧ ∃ l', t''.Queue l' (user :: uses) := by
      rw [fetched, ExtTreeMap.contains_eq_isSome_getElem?] at hfetched
      split at hfetched
      · next hsome =>
          have hvirmem : s.virmemMeta[user]? ≠ none := Option.isSome_iff_ne_none.mp hsome
          obtain ⟨ht, l', hqueue⟩ := (h.reload .ok hb hvirmem (hone hvirmem)).2 t r hfetched hr
          obtain ⟨l'', hmoved⟩ := hqueue.move hr hdetach hmove
          exact ⟨ht, l'', hmoved.listed, hmoved.sorted.of_twice⟩
      · obtain rfl := Except.ok.inj hfetched
        exact ⟨hb, h.move hr hdetach hmove⟩
    obtain ⟨ht, l', hqueue⟩ := hloaded
    rw [hs']
    exact ⟨(ht.move hr hdetach hmove).1.sent _, l', hqueue.congr rfl rfl rfl fun _ => id⟩

/-! ### Runs -/

/-- A put for a user of whom there is no trace, or one that is refused for a user that is not in memory; a
get whose user, if it must be loaded, has one file. -/
def Uncrossed (s : LRUCache) : Op → Prop
  | .put user _ value _ _ => s.Unknown user ∨ s.tablets[user]? = none ∧ s.Refused user value
  | .get user _ _ => s.OneFile user
  | .cput _ _ _ _ _ _ => False
  | .dele _ _ _ _ _ => False
  | .rename _ _ _ _ _ => False

/-- One command: all that it evicts is oldest, and in the end its user is the latest. -/
theorem Queue.exec (otherwise : LRUCache → Except Fault LRUCache) {op : Op} (h : s.Queue l uses) (hb : s.Bounded)
    (hop : s.Uncrossed op) :
    s.execWith (evictIf (OldestFirst (op.user :: uses)) otherwise) fuel op = s.exec fuel op ∧
      ∀ s', s.exec fuel op = .ok s' → s'.Bounded ∧ ∃ l', s'.Queue l' (op.user :: uses) := by
  cases op with
  | put user filename value commFd seqNum =>
      have habsent : s.tablets[user]? = none := hop.elim And.left And.left
      constructor
      · refine putWith_congr fun hvalue => ?_
        rcases hop with hunknown | ⟨_, hrefused⟩
        · exact (h.putLoop otherwise hb hunknown hvalue).1
        · exact putLoopWith_of_exceedsQuota (hrefused.resolve_left (Nat.not_lt.mpr hvalue))
      · intro s' hrun
        rcases hop with hunknown | ⟨_, hrefused⟩
        · rcases put_ok hrun with ⟨_, rfl⟩ | ⟨hvalue, hloop⟩
          · exact ⟨hb.sent _, l, (h.other habsent).congr rfl rfl rfl fun _ => id⟩
          · have hroom : (value.length : Int) ≤ s.capacity := by
              have hnonneg := hb.nonneg
              rw [toSize_of_nonneg hnonneg hb.small] at hvalue
              omega
            have hmakes : s.MakesRoom user value := .of_unknown hunknown h.listed.ordered.inOrder hroom
            exact ⟨(hb.putLoop hunknown.2 (Or.inr hmakes) hvalue hloop).1,
              (h.putLoop otherwise hb hunknown hvalue).2 s' hloop⟩
        · obtain ⟨msg, _, rfl | rfl⟩ := put_of_refused hrefused hrun
          · exact ⟨hb.sent _, l, (h.other habsent).congr rfl rfl rfl fun _ => id⟩
          · exact ⟨hb.touched.sent _, l, (h.other habsent).touched.congr rfl rfl rfl fun _ => id⟩
  | get user filename commFd =>
      constructor
      · have hsame : s.getHelperWith (evictIf (OldestFirst (user :: uses)) otherwise) fuel user filename commFd =
            s.getHelper fuel user filename commFd :=
          getHelperWith_congr fun hvirmem => (h.reload otherwise hb hvirmem (hop hvirmem)).1
        rw [LRUCache.exec, LRUCache.get, ← hsame]
        rfl
      · intro s' hrun
        obtain ⟨found, t, hget, hs'⟩ := get_ok hrun
        obtain ⟨ht, l', hqueue⟩ := h.getHelper hb hop hget
        rw [hs']
        exact ⟨ht.sent _, l', hqueue.congr rfl rfl rfl fun _ => id⟩
  | cput => exact absurd hop id
  | dele => exact absurd hop id
  | rename => exact absurd hop id

theorem queue_of_run {capacity : Int} {isPrimary : Bool} {ops : List Op} (hnonneg : 0 ≤ capacity)
    (hsmall : capacity ≤ intMax) (hrun : Run.Runs (Steps Uncrossed) (fresh capacity isPrimary) ops s) :
    s.Bounded ∧ ∃ l, s.Queue l (ops.map Op.user).reverse := by
  refine hrun.invariant (P := fun ops s => s.Bounded ∧ ∃ l, s.Queue l (ops.map Op.user).reverse) ?_ ?_
  · refine ⟨bounded_fresh hnonneg hsmall, [], ⟨tidy_init, rfl, ⟨by decide, rfl, rfl⟩, fun r => ?_⟩, List.Pairwise.nil⟩
    simp [fresh, init]
  · rintro ops t op t' ⟨hb, l, hqueue⟩ ⟨hop, fuel, hexec⟩
    obtain ⟨hb', l', hqueue'⟩ := (hqueue.exec .ok hb hop).2 t' hexec
    rw [List.map_append, List.map_singleton, List.reverse_append, List.reverse_singleton]
    exact ⟨hb', l', hqueue'⟩

/-- **The victim is the least recently used.** Whatever a command does, it makes no difference what would be
done in place of evicting a user that is not the one whose last access is oldest. -/
theorem evicts_oldest {capacity : Int} {isPrimary : Bool} {ops : List Op} {op : Op} (hnonneg : 0 ≤ capacity)
    (hsmall : capacity ≤ intMax) (hrun : Run.Runs (Steps Uncrossed) (fresh capacity isPrimary) ops s)
    (hop : s.Uncrossed op) (fuel : Nat) (otherwise : LRUCache → Except Fault LRUCache) :
    s.execWith (evictIf (OldestFirst (op.user :: (ops.map Op.user).reverse)) otherwise) fuel op =
      s.exec fuel op := by
  obtain ⟨hb, l, hqueue⟩ := queue_of_run hnonneg hsmall hrun
  exact (hqueue.exec otherwise hb hop).1

theorem uncrossed_of_firstPut {op : Op} (hop : s.FirstPut op) : s.Uncrossed op := by
  cases op with
  | put => exact Or.inl hop.1
  | get => exact absurd hop id
  | cput => exact absurd hop id
  | dele => exact absurd hop id
  | rename => exact absurd hop id

/-- The third user's value evicts the first user. -/
theorem evicts_oldest_third_put : ∃ s : LRUCache,
    (s.exec 5 (.put "w".toList "h".toList "eeee".toList 3 0)).map (fun s => s.virmemMeta["u".toList]?) =
      .ok (some [[0, 0, 6]]) ∧
    s.execWith (evictIf (OldestFirst ["w".toList, "v".toList, "u".toList]) fun _ => .error .exited) 5
        (.put "w".toList "h".toList "eeee".toList 3 0) =
      s.exec 5 (.put "w".toList "h".toList "eeee".toList 3 0) := by
  have hends : endsIn FirstPut 5 (fresh 10 true)
      [.put "u".toList "f".toList "abc".toList 3 0, .put "v".toList "g".toList "ddddd".toList 3 0]
      (fun s => decide (s.FirstPut (.put "w".toList "h".toList "eeee".toList 3 0) ∧
        (s.exec 5 (.put "w".toList "h".toList "eeee".toList 3 0)).map (fun s => s.virmemMeta["u".toList]?) =
          .ok (some [[0, 0, 6]]))) = true := by
    decide +kernel
  obtain ⟨s, hfirst, hstate⟩ := runs_of_endsIn hends
  obtain ⟨hthird, hevicted⟩ := of_decide_eq_true hstate
  have hsteps : Run.Runs (Steps Uncrossed) (fresh 10 true) _ s := 
    hfirst.mono fun _ _ _ hstep => ⟨uncrossed_of_firstPut hstep.1, hstep.2⟩
  exact ⟨s, hevicted, evicts_oldest (by decide) (by decide) hsteps (uncrossed_of_firstPut hthird) 5 _⟩

/-- A second put leaves its user at the head of the list, and it is evicted before the user that has waited
longer. -/
theorem not_evicts_oldest_put_put : ¬ ∀ (ops : List Op) s op,
    Run.Runs (Steps fun _ op => PutGet op) (fresh 10 true) ops s → PutGet op →
      ∀ fuel otherwise, s.execWith (evictIf (OldestFirst (op.user :: (ops.map Op.user).reverse)) otherwise) fuel op =
        s.exec fuel op := by
  intro hall
  have hends : endsIn (fun _ _ => True) 5 (fresh 10 true) [.put "u".toList "f".toList "aaa".toList 3 0,
      .put "v".toList "g".toList "bbb".toList 3 0, .put "u".toList "f".toList "c".toList 3 0]
      (fun s => decide ((s.execWith (evictIf (OldestFirst ["w".toList, "u".toList, "v".toList, "u".toList])
          fun _ => .error .exited) 5 (.put "w".toList "h".toList "dddd".toList 3 0)).map (·.memoryUsed) = .error .exited ∧
        (s.exec 5 (.put "w".toList "h".toList "dddd".toList 3 0)).map (·.memoryUsed) = .ok 7)) = true := by
    decide +kernel
  obtain ⟨s, hsteps, hstate⟩ := runs_of_endsIn_all PutGet hends (by simp [PutGet])
  obtain ⟨hguarded, hmemory⟩ := of_decide_eq_true hstate
  have hsame : s.execWith (evictIf (OldestFirst ["w".toList, "u".toList, "v".toList, "u".toList])
      fun _ => .error .exited) 5 (.put "w".toList "h".toList "dddd".toList 3 0) = _ :=
    hall _ s (.put "w".toList "h".toList "dddd".toList 3 0) hsteps (by simp [PutGet]) 5 _
  rw [hsame, hmemory] at hguarded
  exact absurd hguarded (by simp)

end PennCloud.LRUCache
