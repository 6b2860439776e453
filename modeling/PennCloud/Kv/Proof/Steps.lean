import PennCloud.Kv.Proof.Chunks
import PennCloud.Kv.Proof.Places

/-!
# What each step can do

The other direction of the equations for the steps of the cache: from a step that returned, the state
it returned and the tests that led there.
-/

namespace PennCloud.LRUCache

open DList Std

variable {s s' : LRUCache} {user filename value : Str} {r : Ref} {load : LRUCache → Str → Except Fault LRUCache}
  {commFd seqNum : Int} {external isCPUT : Bool}

theorem moveToTail_ok (hr : r ≠ .tail) (hrun : s.moveToTail r = .ok s') :
    ∃ p, s.links.prev .tail = some p ∧ s' = s.toTail r p := by
  cases hprev : s.links.prev .tail with
  | none =>
      have hnull : (s.heap .tail).prev = none := hprev
      simp [moveToTail, setPrev_eq_relink, hnull, hr, deref, bind, Except.bind] at hrun
  | some p =>
      rw [moveToTail_eq hprev hr] at hrun
      exact ⟨p, rfl, (Except.ok.inj hrun).symm⟩

theorem moveToTail_relink (hrun : s.moveToTail r = .ok s') : ∃ L, s' = s.relink L := by
  obtain ⟨prev, _, hrun⟩ := Run.bind_eq_ok.mp hrun
  obtain rfl := Except.ok.inj hrun
  simp only [setPrev_eq_relink, setNext_eq_relink, relink_relink]
  exact ⟨_, rfl⟩

theorem detach_ok (hrun : s.detach r = .ok s') :
    ∃ p n, s.links.prev r = some p ∧ s.links.next r = some n ∧ s' = s.relink (s.links.bypass p n) := by
  obtain ⟨p, hprev, hrest⟩ := Run.bind_eq_ok.mp hrun
  have hprev : s.links.prev r = some p := deref_eq_ok.mp hprev
  obtain ⟨n, hnext, _⟩ := Run.bind_eq_ok.mp hrest
  have hnext := deref_eq_ok.mp hnext
  rw [setNext_eq_relink, relink_next] at hnext
  change Function.update s.links.next p (s.links.next r) r = some n at hnext
  have hnext : s.links.next r = some n := by
    by_cases heq : r = p
    · subst heq
      rw [Function.update_self] at hnext
      exact hnext
    · rw [Function.update_of_ne heq] at hnext
      exact hnext
  rw [detach_eq hprev hnext] at hrun
  exact ⟨p, n, hprev, hnext, (Except.ok.inj hrun).symm⟩

theorem insertUser_ok (hrun : s.insertUser user filename value = .ok s') :
    ∃ p, s.links.prev .tail = some p ∧
      s' = (s.addNode user filename value).toTail (.node s.nodes) p := by
  obtain ⟨p, hprev, hs'⟩ := moveToTail_ok (by simp) hrun
  refine ⟨p, ?_, hs'⟩
  simpa [links, addNode] using hprev

theorem storeResident_ok {new : Str → Str} (hrun : s.storeResident user filename new = .ok s') :
    ∃ r, s.tablets[user]? = some r ∧ (r ≠ .tail → ∃ p, s.links.prev .tail = some p ∧
      s' = (s.setValue r ((s.heap r).value.insert filename
        (new ((s.heap r).value.getD filename [])))).toTail r p) := by
  obtain ⟨r, hresident, hrest⟩ := Run.bind_eq_ok.mp hrun
  refine ⟨r, deref_eq_ok.mp hresident, fun hr => ?_⟩
  obtain ⟨p, hprev, hs'⟩ := moveToTail_ok hr hrest
  exact ⟨p, by rwa [links_setValue] at hprev, hs'⟩

/-- What every branch of `put_helper` that writes a value keeps. -/
theorem placeValue_preserves {I : LRUCache → Prop}
    (hinsert : ∀ s s', I s → s.tablets[user]? = none → s.virmemMeta[user]? = none →
      s.insertUser user filename value = .ok s' → I s')
    (hload : ∀ s s', I s → load s user = .ok s' → I s')
    (hstore : ∀ s s' new, I s → (∀ old, new old = old ++ value ∨ new old = value) →
      s.storeResident user filename new = .ok s' → I s')
    (hs : I s) (hrun : s.placeValue load user filename value isCPUT = .ok s') : I s' := by
  have happend : ∀ old : Str, (if isCPUT then value else old ++ value) = old ++ value ∨
      (if isCPUT then value else old ++ value) = value := by
    intro old
    cases isCPUT
    · exact Or.inl rfl
    · exact Or.inr rfl
  simp only [placeValue, ExtTreeMap.contains_eq_isSome_getElem?, Bool.not_not, Run.ok_bind] at hrun
  cases hresident : s.tablets[user]? with
  | none =>
      cases hvirmem : s.virmemMeta[user]? with
      | none =>
          simp only [hresident, hvirmem, Option.isSome_none, Bool.not_false, Bool.and_self, if_true,
            Bool.false_eq_true, if_false] at hrun
          obtain ⟨t, hinserted, hrun⟩ := Run.bind_eq_ok.mp hrun
          obtain rfl := Except.ok.inj hrun
          exact hinsert s t hs hresident hvirmem hinserted
      | some records =>
          simp only [hresident, hvirmem, Option.isSome_none, Option.isSome_some, Bool.not_false,
            Bool.not_true, Bool.and_false, if_true, Bool.false_eq_true, if_false] at hrun
          obtain ⟨t, hloaded, hrun⟩ := Run.bind_eq_ok.mp hrun
          exact hstore t s' _ (hload s t hs hloaded) (fun _ => Or.inl rfl) hrun
  | some r =>
      simp only [hresident, Option.isSome_some, Bool.not_true, Bool.false_and, if_true,
        Bool.false_eq_true, if_false] at hrun
      obtain ⟨t, hstored, hrun⟩ := Run.bind_eq_ok.mp hrun
      have ht := hstore s t _ hs happend hstored
      split at hrun
      · obtain ⟨t', hloaded, hrun⟩ := Run.bind_eq_ok.mp hrun
        exact hstore t' s' _ (hload t t' ht hloaded) (fun _ => Or.inl rfl) hrun
      · obtain rfl := Except.ok.inj hrun
        exact ht

/-! ### One call of `put_helper` -/

/-- The state `put_helper` works on: an external call has made sure that `user_size` has an entry. -/
def touched (s : LRUCache) (user : Str) (external isCPUT : Bool) : LRUCache :=
  if external || isCPUT then s.touchUserSize user else s

/-- The bytes of a stored value charged to memory and, from outside, to the user; then the reply. -/
def charged (s : LRUCache) (user value : Str) (commFd : Int) (external isCPUT : Bool) (seqNum : Int) :
    LRUCache :=
  let s := s.addMemory value.length
  let s := if external || isCPUT then
      s.setUserSize user (toInt32 (s.userSizeOf user + value.length))
    else s
  if external then s.reportStored user commFd isCPUT seqNum else s

theorem touched_eq : s.touched user external isCPUT =
    { s with userSize := (s.touched user external isCPUT).userSize } := by
  cases external <;> cases isCPUT <;> rfl

theorem charged_eq : s.charged user value commFd external isCPUT seqNum =
    { s with
      memoryUsed := toInt32 (s.memoryUsed + value.length)
      userSize := if external || isCPUT then
          s.userSize.insert user (toInt32 (s.userSizeOf user + value.length))
        else s.userSize
      sent := (s.charged user value commFd external isCPUT seqNum).sent } := by
  cases hprimary : s.isPrimary <;> cases external <;> cases isCPUT <;>
    simp [charged, reportStored, addMemory, setUserSize, servermsg, send, userSizeOf, hprimary]

section Fields

@[simp] theorem touched_heap : (s.touched user external isCPUT).heap = s.heap := by rw [touched_eq]
@[simp] theorem touched_links : (s.touched user external isCPUT).links = s.links := by
  rw [touched_eq]
  rfl
@[simp] theorem touched_nodes : (s.touched user external isCPUT).nodes = s.nodes := by rw [touched_eq]
@[simp] theorem touched_tablets : (s.touched user external isCPUT).tablets = s.tablets := by rw [touched_eq]
@[simp] theorem touched_virmemMeta : (s.touched user external isCPUT).virmemMeta = s.virmemMeta := by rw [touched_eq]
@[simp] theorem touched_disk : (s.touched user external isCPUT).disk = s.disk := by rw [touched_eq]
@[simp] theorem touched_chunkInfo : (s.touched user external isCPUT).chunkInfo = s.chunkInfo := by rw [touched_eq]
@[simp] theorem touched_capacity : (s.touched user external isCPUT).capacity = s.capacity := by rw [touched_eq]

@[simp] theorem charged_heap : (s.charged user value commFd external isCPUT seqNum).heap = s.heap := by
  rw [charged_eq]
@[simp] theorem charged_links : (s.charged user value commFd external isCPUT seqNum).links = s.links := by
  rw [charged_eq]
  rfl
@[simp] theorem charged_nodes : (s.charged user value commFd external isCPUT seqNum).nodes = s.nodes := by
  rw [charged_eq]
@[simp] theorem charged_tablets : (s.charged user value commFd external isCPUT seqNum).tablets = s.tablets := by
  rw [charged_eq]
@[simp] theorem charged_virmemMeta : (s.charged user value commFd external isCPUT seqNum).virmemMeta = s.virmemMeta := by
  rw [charged_eq]
@[simp] theorem charged_disk : (s.charged user value commFd external isCPUT seqNum).disk = s.disk := by
  rw [charged_eq]
@[simp] theorem charged_chunkInfo : (s.charged user value commFd external isCPUT seqNum).chunkInfo = s.chunkInfo := by
  rw [charged_eq]
@[simp] theorem charged_capacity : (s.charged user value commFd external isCPUT seqNum).capacity = s.capacity := by
  rw [charged_eq]

@[simp] theorem touched_memoryUsed : (s.touched user external isCPUT).memoryUsed = s.memoryUsed := by
  rw [touched_eq]

@[simp] theorem charged_memoryUsed :
    (s.charged user value commFd external isCPUT seqNum).memoryUsed =
      toInt32 (s.memoryUsed + value.length) := by
  rw [charged_eq]

@[simp] theorem touched_userSizeOf (u : Str) :
    (s.touched user external isCPUT).userSizeOf u = s.userSizeOf u := by
  unfold touched
  split
  · by_cases hu : user = u
    · subst hu
      simp [touchUserSize, setUserSize, userSizeOf]
    · simp [touchUserSize, setUserSize, userSizeOf, ExtTreeMap.getD_insert, hu]
  · rfl

@[simp] theorem touched_exceedsQuota (u v : Str) :
    (s.touched user external isCPUT).exceedsQuota u v = s.exceedsQuota u v := by
  rw [exceedsQuota, exceedsQuota, touched_userSizeOf, touched_capacity]

@[simp] theorem touched_fits (v : Str) : (s.touched user external isCPUT).fits v = s.fits v := by
  rw [fits, fits, touched_memoryUsed, touched_capacity]

end Fields

theorem putHelper_eq :
    s.putHelper load user filename value commFd external isCPUT seqNum =
      if (external || isCPUT) && s.exceedsQuota user value then
        .ok (true, (s.touched user external isCPUT).servermsg
          "-ERR Your storage exceeds node capacity\r\n" commFd)
      else if s.fits value then
        (s.touched user external isCPUT).placeValue load user filename value isCPUT >>= fun t =>
          .ok (true, t.charged user value commFd external isCPUT seqNum)
      else .ok (false, s.touched user external isCPUT) := by
  have hquota : (s.touched user external isCPUT).exceedsQuota user value = s.exceedsQuota user value :=
    touched_exceedsQuota user value
  have hfits : (s.touched user external isCPUT).fits value = s.fits value := touched_fits value
  rw [← hquota, ← hfits]
  cases external <;> cases isCPUT <;> rfl

theorem putHelper_ok {stored : Bool}
    (hrun : s.putHelper load user filename value commFd external isCPUT seqNum = .ok (stored, s')) :
    (stored = true ∧ (external || isCPUT) = true ∧
        s.exceedsQuota user value = true ∧
        s' = (s.touched user external isCPUT).servermsg "-ERR Your storage exceeds node capacity\r\n" commFd) ∨
      (stored = true ∧
        ((external || isCPUT) && s.exceedsQuota user value) = false ∧ s.fits value = true ∧
        ∃ t, (s.touched user external isCPUT).placeValue load user filename value isCPUT = .ok t ∧
          s' = t.charged user value commFd external isCPUT seqNum) ∨
      (stored = false ∧
        ((external || isCPUT) && s.exceedsQuota user value) = false ∧ s.fits value = false ∧
        s' = s.touched user external isCPUT) := by
  rw [putHelper_eq] at hrun
  split at hrun
  · next hquota =>
      rw [Bool.and_eq_true] at hquota
      obtain ⟨rfl, rfl⟩ := Prod.mk.inj (Except.ok.inj hrun)
      exact Or.inl ⟨rfl, hquota.1, hquota.2, rfl⟩
  · next hquota =>
      rw [Bool.not_eq_true] at hquota
      split at hrun
      · next hfits =>
          obtain ⟨t, hplace, hrun⟩ := Run.bind_eq_ok.mp hrun
          obtain ⟨rfl, rfl⟩ := Prod.mk.inj (Except.ok.inj hrun)
          exact Or.inr (Or.inl ⟨rfl, hquota, hfits, t, hplace, rfl⟩)
      · next hfits =>
          obtain ⟨rfl, rfl⟩ := Prod.mk.inj (Except.ok.inj hrun)
          exact Or.inr (Or.inr ⟨rfl, hquota, Bool.not_eq_true _ ▸ hfits, rfl⟩)

/-! ### Eviction -/

/-- What is left of a state once the row of the node `x` has been written: `t` is the state after
writing, `n` the node behind `x`. -/
def dropped (t : LRUCache) (x n : Ref) : LRUCache :=
  (({ t with tablets := t.tablets.erase (t.heap x).key }).relink (t.links.bypass .head n)).addMemory
    (-(formatNode (t.heap x).value).2)

section Dropped

variable (t : LRUCache) (x n r : Ref)

@[simp] theorem dropped_links : (t.dropped x n).links = t.links.bypass .head n := rfl
@[simp] theorem dropped_key : ((t.dropped x n).heap r).key = (t.heap r).key := rfl
@[simp] theorem dropped_value : ((t.dropped x n).heap r).value = (t.heap r).value := rfl
@[simp] theorem dropped_tablets : (t.dropped x n).tablets = t.tablets.erase (t.heap x).key := rfl
@[simp] theorem dropped_nodes : (t.dropped x n).nodes = t.nodes := rfl
@[simp] theorem dropped_virmemMeta : (t.dropped x n).virmemMeta = t.virmemMeta := rfl
@[simp] theorem dropped_disk : (t.dropped x n).disk = t.disk := rfl
@[simp] theorem dropped_sent : (t.dropped x n).sent = t.sent := rfl
@[simp] theorem dropped_chunkInfo : (t.dropped x n).chunkInfo = t.chunkInfo := rfl
@[simp] theorem dropped_userSize : (t.dropped x n).userSize = t.userSize := rfl
@[simp] theorem dropped_capacity : (t.dropped x n).capacity = t.capacity := rfl

end Dropped

/-- `use_virtual_memory` writes the row of the first node and drops the node. -/
theorem useVirtualMemory_ok (hrun : s.useVirtualMemory = .ok s') :
    ∃ x n t, s.links.next .head = some x ∧ s.links.next x = some n ∧
      s.writeToChunk (s.heap x).key (rowOf (s.heap x).value) .virtualMemory = .ok t ∧
      s' = t.dropped x n := by
  obtain ⟨x, hx, hrun⟩ := Run.bind_eq_ok.mp hrun
  obtain ⟨t, hwrite, hrun⟩ := Run.bind_eq_ok.mp hrun
  obtain ⟨n, hn, hrun⟩ := Run.bind_eq_ok.mp hrun
  have hheap : t.heap = s.heap := (chunkStep_writeToChunkWith hwrite).heap
  have hnext := deref_eq_ok.mp hn
  rw [setNext_next_self] at hnext
  change (t.heap x).next = some n at hnext
  refine ⟨x, n, t, deref_eq_ok.mp hx, ?_, hwrite, ?_⟩
  · rw [hheap] at hnext
    exact hnext
  · obtain rfl := Except.ok.inj hrun
    rw [setNext_eq_relink, setPrev_eq_relink, relink_relink, links_relink]
    simp only [hnext, ← hheap]
    rfl

/-! ### The loop of `put` -/

/-- `load_user_from_disk` as the loop of `put` calls it. -/
def reload (fuel : Nat) (commFd : Int) (s : LRUCache) (user : Str) : Except Fault LRUCache :=
  loadUserFromDisk fuel s .virtualMemory user commFd

theorem put_ok {fuel : Nat}
    (hrun : put fuel s user filename value commFd external seqNum = .ok s') :
    (toSize s.capacity < value.length ∧
        s' = s.servermsg "-ERR File size exceeds node capacity\r\n" commFd) ∨
      (value.length ≤ toSize s.capacity ∧
        putLoop fuel s user filename value commFd external seqNum = .ok s') := by
  rw [put, putWith] at hrun
  split at hrun
  · next hlarge => exact Or.inl ⟨hlarge, (Except.ok.inj hrun).symm⟩
  · next hsmall => exact Or.inr ⟨Nat.le_of_not_lt hsmall, hrun⟩

theorem putLoop_succ_ok {fuel : Nat}
    (hrun : putLoop (fuel + 1) s user filename value commFd external seqNum = .ok s') :
    s.putHelper (reload fuel commFd) user filename value commFd external false seqNum = .ok (true, s') ∨
      ∃ t t', s.putHelper (reload fuel commFd) user filename value commFd external false seqNum =
          .ok (false, t) ∧ t.useVirtualMemory = .ok t' ∧
        putLoop fuel t' user filename value commFd external seqNum = .ok s' := by
  rw [putLoop] at hrun
  obtain ⟨⟨stored, t⟩, hhelper, hrun⟩ := Run.bind_eq_ok.mp hrun
  cases stored with
  | true =>
      obtain rfl := Except.ok.inj hrun
      exact Or.inl hhelper
  | false =>
      obtain ⟨t', hevict, hrun⟩ := Run.bind_eq_ok.mp hrun
      exact Or.inr ⟨t, t', hhelper, hevict, hrun⟩

/-- Nothing has been sent to anybody else, and nothing has been logged. -/
structure Answers (s s' : LRUCache) (commFd : Int) : Prop where
  role : s'.isPrimary = s.isPrimary
  log : s'.disk.log = s.disk.log
  replies : ∃ replies, s'.sent = s.sent ++ replies ∧ ∀ reply ∈ replies, reply.1 = commFd

theorem Answers.of_eq (hrole : s'.isPrimary = s.isPrimary) (hlog : s'.disk.log = s.disk.log)
    (hsent : s'.sent = s.sent) : Answers s s' commFd :=
  ⟨hrole, hlog, [], by rw [hsent, List.append_nil], fun reply hreply => absurd hreply List.not_mem_nil⟩

theorem Answers.trans {t : LRUCache} (h : Answers s t commFd) (h' : Answers t s' commFd) :
    Answers s s' commFd := by
  obtain ⟨replies, hsent, hreplies⟩ := h.replies
  obtain ⟨replies', hsent', hreplies'⟩ := h'.replies
  refine ⟨h'.role.trans h.role, h'.log.trans h.log, replies ++ replies', by rw [hsent', hsent, List.append_assoc], ?_⟩
  intro reply hreply
  exact (List.mem_append.mp hreply).elim (hreplies reply) (hreplies' reply)

theorem answers_send (msg : Str) : Answers s (s.send commFd msg) commFd :=
  ⟨rfl, rfl, [(commFd, msg)], rfl, fun reply hreply => by rw [List.mem_singleton.mp hreply]⟩

theorem answers_touched : Answers s (s.touched user external isCPUT) commFd := by
  rw [touched_eq]
  exact .of_eq rfl rfl rfl

theorem answers_charged : Answers s (s.charged user value commFd external isCPUT seqNum) commFd := by
  have hreported : ∀ t : LRUCache, Answers t (t.reportStored user commFd isCPUT seqNum) commFd := by
    intro t
    unfold reportStored
    split
    · split <;> exact answers_send _
    · exact answers_send _
  have hsized : ∀ t : LRUCache, ∀ n, Answers t (if external || isCPUT then t.setUserSize user n else t) commFd := by
    intro t n
    split <;> exact .of_eq rfl rfl rfl
  have hadded : Answers s (s.addMemory value.length) commFd := .of_eq rfl rfl rfl
  rw [charged]
  split
  · exact (hadded.trans (hsized _ _)).trans (hreported _)
  · exact hadded.trans (hsized _ _)

/-- Counters, replies and the records of forgotten users may differ. -/
structure Still (s s' : LRUCache) : Prop where
  heap : s'.heap = s.heap
  nodes : s'.nodes = s.nodes
  tablets : s'.tablets = s.tablets
  virmem : ∀ u : Str, s.virmemMeta[u]? = none → s'.virmemMeta[u]? = none
  chunkInfo : s'.chunkInfo = s.chunkInfo
  syscalls : s'.syscalls = s.syscalls
  disk : s'.disk = s.disk

/-- A step that counts, answers, or forgets the records of a user. -/
structure Quiet (s s' : LRUCache) (commFd : Int) : Prop where
  still : Still s s'
  answers : Answers s s' commFd

theorem Still.of_eq (hheap : s'.heap = s.heap) (hnodes : s'.nodes = s.nodes)
    (htablets : s'.tablets = s.tablets) (hvirmem : s'.virmemMeta = s.virmemMeta)
    (hinfo : s'.chunkInfo = s.chunkInfo) (hsyscalls : s'.syscalls = s.syscalls)
    (hdisk : s'.disk = s.disk) : Still s s' :=
  ⟨hheap, hnodes, htablets, fun u hu => by rwa [hvirmem], hinfo, hsyscalls, hdisk⟩

theorem quiet_send (msg : Str) : Quiet s (s.send commFd msg) commFd :=
  ⟨.of_eq rfl rfl rfl rfl rfl rfl rfl, answers_send msg⟩

theorem quiet_touched : Quiet s (s.touched user external isCPUT) commFd := by
  refine ⟨?_, answers_touched⟩
  rw [touched_eq]
  exact .of_eq rfl rfl rfl rfl rfl rfl rfl

theorem quiet_charged : Quiet s (s.charged user value commFd external isCPUT seqNum) commFd := by
  refine ⟨?_, answers_charged⟩
  rw [charged_eq]
  exact .of_eq rfl rfl rfl rfl rfl rfl rfl

theorem quiet_clearMetadata : Quiet s (s.clearMetadata .virtualMemory user) commFd := by
  refine ⟨⟨rfl, rfl, rfl, fun u hu => ?_, rfl, rfl, rfl⟩, .of_eq rfl rfl rfl⟩
  change (s.virmemMeta.erase user)[u]? = none
  rw [SortedMap.getElem?_erase_eq, hu, ite_self]

/-- A property of states that the parts of `put` keep, for values of one kind and calls of some kinds. The puts that
restore a row are internal. -/
structure Steady (I : LRUCache → Prop) (V : Str → Prop) (E : Bool → Bool → Prop) (user : Str) (commFd : Int) :
    Prop where
  inner : E false false
  touched : ∀ s external isCPUT, I s → I (s.touched user external isCPUT)
  overQuota : ∀ s, I s → I (s.servermsg "-ERR Your storage exceeds node capacity\r\n" commFd)
  oversized : ∀ s, I s → I (s.servermsg "-ERR File size exceeds node capacity\r\n" commFd)
  charged : ∀ s value external isCPUT seqNum, E external isCPUT → I s →
    I (s.charged user value commFd external isCPUT seqNum)
  cleared : ∀ s, I s → I (s.clearMetadata .virtualMemory user)
  insert : ∀ s s' filename value, V value → I s → s.tablets[user]? = none →
    s.virmemMeta[user]? = none → s.insertUser user filename value = .ok s' → I s'
  store : ∀ s s' filename value new, V value → (∀ old, new old = old ++ value ∨ new old = value) →
    I s → s.storeResident user filename new = .ok s' → I s'
  evict : ∀ s s', I s → s.useVirtualMemory = .ok s' → I s'
  pairs : ∀ row file, file ∈ pairUp (Fields.pieces ',' row) → V file.2

section Preserves

variable {I : LRUCache → Prop} {V : Str → Prop} {E : Bool → Bool → Prop} {fuel : Nat}

theorem Steady.placeValue (h : Steady I V E user commFd) (hload : ∀ s s', I s → load s user = .ok s' → I s')
    (hs : I s) (hvalue : V value) (hrun : s.placeValue load user filename value isCPUT = .ok s') : I s' :=
  placeValue_preserves (fun s s' => h.insert s s' filename value hvalue) hload
    (fun s s' new hs hnew hrun => h.store s s' filename value new hvalue hnew hs hrun) hs hrun

theorem Steady.putHelper (h : Steady I V E user commFd) (hload : ∀ s s', I s → load s user = .ok s' → I s')
    {stored : Bool} (hcall : E external isCPUT) (hs : I s) (hvalue : V value)
    (hrun : s.putHelper load user filename value commFd external isCPUT seqNum = .ok (stored, s')) :
    I s' := by
  have htouched : I (s.touched user external isCPUT) := h.touched _ _ _ hs
  rcases putHelper_ok hrun with ⟨_, _, _, rfl⟩ | ⟨_, _, _, t, hplace, rfl⟩ | ⟨_, _, _, rfl⟩
  · exact h.overQuota _ htouched
  · exact h.charged _ _ _ _ _ hcall (h.placeValue hload htouched hvalue hplace)
  · exact htouched

/-- The loop of `put` keeps it, through evictions and the puts that restore a row. -/
theorem Steady.putLoop (h : Steady I V E user commFd) (hcall : E external false) (hs : I s) (hvalue : V value)
    (hrun : LRUCache.putLoop fuel s user filename value commFd external seqNum = .ok s') : I s' := by
  induction fuel generalizing s s' filename value external seqNum with
  | zero => exact absurd hrun (by simp [LRUCache.putLoop])
  | succ fuel ih =>
      have hload : ∀ s s', I s → reload fuel commFd s user = .ok s' → I s' := by
        intro s s' hs hrun
        obtain ⟨row, _, hrun⟩ := Run.bind_eq_ok.mp hrun
        refine Run.foldlM_invariant (P := I) ?_ (h.cleared _ hs) hrun
        intro s file s' hfile hs hput
        rcases put_ok hput with ⟨_, rfl⟩ | ⟨_, hloop⟩
        · exact h.oversized _ hs
        · exact ih h.inner hs (h.pairs row file hfile) hloop
      rcases putLoop_succ_ok hrun with hdone | ⟨t, t', hroom, hevict, hrest⟩
      · exact h.putHelper hload hcall hs hvalue hdone
      · exact ih hcall (h.evict _ _ (h.putHelper hload hcall hs hvalue hroom) hevict) hvalue hrest

theorem Steady.put (h : Steady I V E user commFd) (hcall : E external false) (hs : I s) (hvalue : V value)
    (hrun : LRUCache.put fuel s user filename value commFd external seqNum = .ok s') : I s' := by
  rcases put_ok hrun with ⟨_, rfl⟩ | ⟨_, hloop⟩
  · exact h.oversized _ hs
  · exact h.putLoop hcall hs hvalue hloop

theorem Steady.restoreUser {row : Str} (h : Steady I V E user commFd) (hs : I s)
    (hrun : s.restoreUser fuel user row commFd = .ok s') : I s' := by
  refine Run.foldlM_invariant (P := I) ?_ hs hrun
  exact fun s file s' hfile hs hput => h.put h.inner hs (h.pairs row file hfile) hput

theorem Steady.loadUserFromDisk {type : ChunkType} (h : Steady I V E user commFd) (hs : I s)
    (hrun : LRUCache.loadUserFromDisk fuel s type user commFd = .ok s') : I s' := by
  obtain ⟨row, _, hrun⟩ := Run.bind_eq_ok.mp hrun
  refine h.restoreUser ?_ hrun
  cases type
  · exact h.cleared _ hs
  · exact hs

end Preserves

/-- A property that counting, answering and forgetting records keep, whatever is answered. -/
structure Kept (I : LRUCache → Prop) (V : Str → Prop) (user : Str) (commFd : Int) : Prop where
  frame : ∀ s s', I s → Quiet s s' commFd → I s'
  insert : ∀ s s' filename value, V value → I s → s.tablets[user]? = none →
    s.virmemMeta[user]? = none → s.insertUser user filename value = .ok s' → I s'
  store : ∀ s s' filename value new, V value → (∀ old, new old = old ++ value ∨ new old = value) →
    I s → s.storeResident user filename new = .ok s' → I s'
  evict : ∀ s s', I s → s.useVirtualMemory = .ok s' → I s'
  pairs : ∀ row file, file ∈ pairUp (Fields.pieces ',' row) → V file.2

section Keeps

variable {I : LRUCache → Prop} {V : Str → Prop} {fuel : Nat}

theorem Kept.steady (h : Kept I V user commFd) : Steady I V (fun _ _ => True) user commFd where
  inner := trivial
  touched _ _ _ hs := h.frame _ _ hs quiet_touched
  overQuota _ hs := h.frame _ _ hs (quiet_send _)
  oversized _ hs := h.frame _ _ hs (quiet_send _)
  charged _ _ _ _ _ _ hs := h.frame _ _ hs quiet_charged
  cleared _ hs := h.frame _ _ hs quiet_clearMetadata
  insert := h.insert
  store := h.store
  evict := h.evict
  pairs := h.pairs

theorem Kept.putHelper (h : Kept I V user commFd) (hload : ∀ s s', I s → load s user = .ok s' → I s')
    {stored : Bool} (hs : I s) (hvalue : V value)
    (hrun : s.putHelper load user filename value commFd external isCPUT seqNum = .ok (stored, s')) : I s' :=
  h.steady.putHelper hload trivial hs hvalue hrun

theorem Kept.putLoop (h : Kept I V user commFd) (hs : I s) (hvalue : V value)
    (hrun : LRUCache.putLoop fuel s user filename value commFd external seqNum = .ok s') : I s' :=
  h.steady.putLoop trivial hs hvalue hrun

theorem Kept.put (h : Kept I V user commFd) (hs : I s) (hvalue : V value)
    (hrun : LRUCache.put fuel s user filename value commFd external seqNum = .ok s') : I s' :=
  h.steady.put trivial hs hvalue hrun

theorem Kept.restoreUser {row : Str} (h : Kept I V user commFd) (hs : I s)
    (hrun : s.restoreUser fuel user row commFd = .ok s') : I s' :=
  h.steady.restoreUser hs hrun

theorem Kept.loadUserFromDisk {type : ChunkType} (h : Kept I V user commFd) (hs : I s)
    (hrun : LRUCache.loadUserFromDisk fuel s type user commFd = .ok s') : I s' :=
  h.steady.loadUserFromDisk hs hrun

end Keeps

/-! ### Reading and changing -/

theorem detach_moveToTail_ok {t : LRUCache} (hr : r ≠ .tail) (hdetach : s.detach r = .ok t)
    (hmove : t.moveToTail r = .ok s') :
    ∃ p n q, s.links.prev r = some p ∧ s.links.next r = some n ∧
      (s.links.bypass p n).prev .tail = some q ∧
      s' = s.relink ((s.links.bypass p n).moveToTail .tail r q) := by
  obtain ⟨p, n, hprev, hnext, rfl⟩ := detach_ok hdetach
  obtain ⟨q, hq, rfl⟩ := moveToTail_ok hr hmove
  exact ⟨p, n, q, hprev, hnext, hq, rfl⟩

/-- The state in which `get_helper` looks the user up: a user in virtual memory has been loaded. -/
def fetched (fuel : Nat) (s : LRUCache) (user : Str) (commFd : Int) : Except Fault LRUCache :=
  if s.virmemMeta.contains user then loadUserFromDisk fuel s .virtualMemory user commFd else .ok s

/-- What `get_helper` does with a user in memory. -/
def lookUp (s : LRUCache) (user filename : Str) (commFd : Int) : Except Fault (Option Str × LRUCache) := do
  let current ← deref s.tablets[user]?
  let s ← s.detach current
  let s ← s.moveToTail current
  match (s.heap current).value[filename]? with
  | some value => .ok (some value, s)
  | none => .ok (none, s.servermsg "-ERR No such file\r\n" commFd)

theorem getHelper_of_unknown {fuel : Nat} (habsent : s.tablets[user]? = none)
    (hvirmem : s.virmemMeta[user]? = none) :
    s.getHelper fuel user filename commFd =
      .ok (none, s.servermsg "-ERR User not exist\r\n" commFd) := by
  simp [getHelper, ExtTreeMap.contains_eq_isSome_getElem?, habsent, hvirmem]

theorem getHelper_of_known {fuel : Nat} (hknown : ¬ (s.tablets[user]? = none ∧ s.virmemMeta[user]? = none)) :
    s.getHelper fuel user filename commFd =
      s.fetched fuel user commFd >>= fun t => t.lookUp user filename commFd := by
  have hcontains : (s.tablets[user]?.isSome || s.virmemMeta[user]?.isSome) = true := by
    rw [Bool.or_eq_true, Option.isSome_iff_ne_none, Option.isSome_iff_ne_none]
    by_cases habsent : s.tablets[user]? = none
    · exact Or.inr fun hvirmem => hknown ⟨habsent, hvirmem⟩
    · exact Or.inl habsent
  simp only [getHelper, fetched, ExtTreeMap.contains_eq_isSome_getElem?, hcontains, if_true]
  split
  · rfl
  · rfl

theorem Steady.getHelper {I : LRUCache → Prop} {V : Str → Prop} {E : Bool → Bool → Prop} {fuel : Nat} {found : Option Str}
    (h : Steady I V E user commFd) (hrelink : ∀ s L, I s → I (s.relink L))
    (hunknown : ∀ s, I s → I (s.servermsg "-ERR User not exist\r\n" commFd))
    (hmissing : ∀ s, I s → I (s.servermsg "-ERR No such file\r\n" commFd)) (hs : I s)
    (hrun : s.getHelper fuel user filename commFd = .ok (found, s')) : I s' := by
  by_cases hknown : s.tablets[user]? = none ∧ s.virmemMeta[user]? = none
  · rw [getHelper_of_unknown hknown.1 hknown.2] at hrun
    obtain ⟨_, rfl⟩ := Prod.mk.inj (Except.ok.inj hrun)
    exact hunknown s hs
  · rw [getHelper_of_known hknown] at hrun
    obtain ⟨t, hfetch, hrun⟩ := Run.bind_eq_ok.mp hrun
    have hfetched : I t := by
      rw [fetched] at hfetch
      split at hfetch
      · exact h.loadUserFromDisk hs hfetch
      · exact Except.ok.inj hfetch ▸ hs
    obtain ⟨r, _, hrun⟩ := Run.bind_eq_ok.mp hrun
    obtain ⟨t', hdetach, hrun⟩ := Run.bind_eq_ok.mp hrun
    obtain ⟨t'', hmove, hrun⟩ := Run.bind_eq_ok.mp hrun
    obtain ⟨p, n, _, _, rfl⟩ := detach_ok hdetach
    obtain ⟨L, rfl⟩ := moveToTail_relink hmove
    have hmoved := hrelink _ L (hrelink _ (t.links.bypass p n) hfetched)
    split at hrun
    · obtain ⟨_, rfl⟩ := Prod.mk.inj (Except.ok.inj hrun)
      exact hmoved
    · obtain ⟨_, rfl⟩ := Prod.mk.inj (Except.ok.inj hrun)
      exact hmissing _ hmoved

theorem lookUp_eq {t : LRUCache} {L : DList.Links Ref} (hresident : s.tablets[user]? = some r) (hdetach : s.detach r = .ok t)
    (hmove : t.moveToTail r = .ok (s.relink L)) (filename : Str) (commFd : Int) :
    s.lookUp user filename commFd = .ok ((s.heap r).value[filename]?,
      if (s.heap r).value[filename]? = none then (s.relink L).servermsg "-ERR No such file\r\n" commFd
      else s.relink L) := by
  rw [lookUp, hresident]
  simp only [deref, Run.ok_bind, hdetach, hmove, relink_value]
  cases (s.heap r).value[filename]? <;> rfl

theorem lookUp_ok {found : Option Str} (hrun : s.lookUp user filename commFd = .ok (found, s')) :
    ∃ r t t', s.tablets[user]? = some r ∧ s.detach r = .ok t ∧ t.moveToTail r = .ok t' ∧
      found = (t'.heap r).value[filename]? ∧ s' = { t' with sent := s'.sent } := by
  obtain ⟨r, hr, hrun⟩ := Run.bind_eq_ok.mp hrun
  obtain ⟨t, hdetach, hrun⟩ := Run.bind_eq_ok.mp hrun
  obtain ⟨t', hmove, hrun⟩ := Run.bind_eq_ok.mp hrun
  refine ⟨r, t, t', deref_eq_ok.mp hr, hdetach, hmove, ?_⟩
  split at hrun
  · next value hvalue =>
      obtain ⟨rfl, rfl⟩ := Prod.mk.inj (Except.ok.inj hrun)
      exact ⟨hvalue.symm, rfl⟩
  · next hvalue =>
      obtain ⟨rfl, rfl⟩ := Prod.mk.inj (Except.ok.inj hrun)
      exact ⟨hvalue.symm, rfl⟩

theorem getHelper_ok {fuel : Nat} {found : Option Str}
    (hrun : s.getHelper fuel user filename commFd = .ok (found, s')) :
    (s.tablets[user]? = none ∧ s.virmemMeta[user]? = none ∧ found = none ∧
        s' = s.servermsg "-ERR User not exist\r\n" commFd) ∨
      ∃ t r t' t'', s.fetched fuel user commFd = .ok t ∧ t.tablets[user]? = some r ∧
        t.detach r = .ok t' ∧ t'.moveToTail r = .ok t'' ∧ found = (t''.heap r).value[filename]? ∧
        s' = { t'' with sent := s'.sent } := by
  by_cases hknown : s.tablets[user]? = none ∧ s.virmemMeta[user]? = none
  · rw [getHelper_of_unknown hknown.1 hknown.2] at hrun
    obtain ⟨rfl, rfl⟩ := Prod.mk.inj (Except.ok.inj hrun)
    exact Or.inl ⟨hknown.1, hknown.2, rfl, rfl⟩
  · rw [getHelper_of_known hknown] at hrun
    obtain ⟨t, hfetched, hrun⟩ := Run.bind_eq_ok.mp hrun
    obtain ⟨r, t', t'', hrest⟩ := lookUp_ok hrun
    exact Or.inr ⟨t, r, t', t'', hfetched, hrest⟩

theorem get_ok {fuel : Nat} (hrun : s.get fuel user filename commFd = .ok s') :
    ∃ found t, s.getHelper fuel user filename commFd = .ok (found, t) ∧
      s' = { t with sent := s'.sent } := by
  obtain ⟨⟨found, t⟩, hget, hrun⟩ := Run.bind_eq_ok.mp hrun
  refine ⟨found, t, hget, ?_⟩
  cases found with
  | none => exact Except.ok.inj hrun ▸ rfl
  | some value => exact Except.ok.inj hrun ▸ rfl

/-- The state in which `cput` stores: the old value no longer counts. -/
def discharged (s : LRUCache) (user : Str) (size : Int) : LRUCache :=
  { s.setUserSize user (toInt32 (s.userSizeOf user - size)) with
    memoryUsed := toInt32 (s.memoryUsed - size) }

theorem cput_eq {fuel : Nat} {oldValue newValue : Str} :
    s.cput fuel user filename oldValue newValue commFd seqNum = s.getHelper fuel user filename commFd >>=
      fun result => match result.1 with
        | some found =>
            if found = oldValue then
              (result.2.discharged user oldValue.length).putHelper (reload fuel commFd) user filename newValue
                commFd true true seqNum >>= fun result => .ok result.2
            else .ok (result.2.servermsg "-ERR Version check fail\r\n" commFd)
        | none => .ok result.2 := rfl

theorem cput_ok {fuel : Nat} {oldValue newValue : Str}
    (hrun : s.cput fuel user filename oldValue newValue commFd seqNum = .ok s') :
    ∃ found t, s.getHelper fuel user filename commFd = .ok (found, t) ∧
      ((found ≠ some oldValue ∧ s' = { t with sent := s'.sent }) ∨
        (found = some oldValue ∧ ∃ stored, (t.discharged user oldValue.length).putHelper
          (reload fuel commFd) user filename newValue commFd true true seqNum = .ok (stored, s'))) := by
  rw [cput_eq] at hrun
  obtain ⟨⟨found, t⟩, hget, hrun⟩ := Run.bind_eq_ok.mp hrun
  refine ⟨found, t, hget, ?_⟩
  cases found with
  | none => exact Or.inl ⟨by simp, Except.ok.inj hrun ▸ rfl⟩
  | some value =>
      dsimp only at hrun
      split at hrun
      · next heq =>
          obtain ⟨⟨stored, t'⟩, hput, hrun⟩ := Run.bind_eq_ok.mp hrun
          obtain rfl := Except.ok.inj hrun
          exact Or.inr ⟨congrArg some heq, stored, hput⟩
      · next hne => exact Or.inl ⟨by simpa using hne, Except.ok.inj hrun ▸ rfl⟩

theorem reportDeleted_eq {isMigration : Bool} :
    s.reportDeleted user commFd seqNum isMigration =
      { s with sent := (s.reportDeleted user commFd seqNum isMigration).sent } := by
  unfold reportDeleted
  split
  · split <;> rfl
  · split <;> rfl

/-- What `dele` does with a file that is there. -/
def eraseFile (s : LRUCache) (user filename : Str) (commFd seqNum : Int) (isMigration : Bool) :
    Except Fault LRUCache := do
  let current ← deref s.tablets[user]?
  let size : Int := ((s.heap current).value.getD filename []).length
  let s := s.discharged user size
  let s := s.setValue current ((s.heap current).value.erase filename)
  let s := s.reportDeleted user commFd seqNum isMigration
  if (s.heap current).value.isEmpty then .ok { s with tablets := s.tablets.erase user }
  else .ok s

theorem dele_eq {fuel : Nat} {isMigration : Bool} :
    s.dele fuel user filename commFd seqNum isMigration = s.getHelper fuel user filename commFd >>=
      fun result => match result.1 with
        | some _ => result.2.eraseFile user filename commFd seqNum isMigration
        | none => .ok result.2 := rfl

/-- The state `eraseFile` leaves, apart from the reply. -/
def fileErased (s : LRUCache) (user filename : Str) (r : Ref) : LRUCache :=
  { (s.discharged user ((s.heap r).value.getD filename []).length).setValue r
      ((s.heap r).value.erase filename) with
    tablets := if ((s.heap r).value.erase filename).isEmpty then s.tablets.erase user else s.tablets }

theorem eraseFile_eq_reportDeleted {isMigration : Bool} (hresident : s.tablets[user]? = some r) :
    s.eraseFile user filename commFd seqNum isMigration =
      .ok { s.fileErased user filename r with
        sent := (s.reportDeleted user commFd seqNum isMigration).sent } := by
  have hfiles : ∀ (s : LRUCache) files, ((s.setValue r files).heap r).value = files := by
    intro s files
    simp [setValue]
  have hsent : ∀ size files, (((s.discharged user size).setValue r files).reportDeleted user commFd seqNum
      isMigration).sent = (s.reportDeleted user commFd seqNum isMigration).sent := by
    intro size files
    change (if s.isPrimary then _ else _ : LRUCache).sent = (if s.isPrimary then _ else _ : LRUCache).sent
    split_ifs <;> rfl
  rw [eraseFile, hresident]
  simp only [deref, Run.ok_bind]
  have hheap : ∀ n, (s.discharged user n).heap = s.heap := fun _ => rfl
  rw [reportDeleted_eq, hfiles, hheap, fileErased]
  split
  all_goals
    rw [hsent]
    rfl

theorem eraseFile_eq {isMigration : Bool} (hresident : s.tablets[user]? = some r) :
    ∃ sent, s.eraseFile user filename commFd seqNum isMigration =
      .ok { s.fileErased user filename r with sent := sent } :=
  ⟨_, eraseFile_eq_reportDeleted hresident⟩

theorem dele_ok {fuel : Nat} {isMigration : Bool}
    (hrun : s.dele fuel user filename commFd seqNum isMigration = .ok s') :
    ∃ found t, s.getHelper fuel user filename commFd = .ok (found, t) ∧
      ((found = none ∧ s' = t) ∨
        ∃ value r, found = some value ∧ t.tablets[user]? = some r ∧
          s' = { t.fileErased user filename r with sent := s'.sent }) := by
  rw [dele_eq] at hrun
  obtain ⟨⟨found, t⟩, hget, hrun⟩ := Run.bind_eq_ok.mp hrun
  refine ⟨found, t, hget, ?_⟩
  cases found with
  | none => exact Or.inl ⟨rfl, (Except.ok.inj hrun).symm⟩
  | some value =>
      have hrun : t.eraseFile user filename commFd seqNum isMigration = .ok s' := hrun
      obtain ⟨r, hr, _⟩ := Run.bind_eq_ok.mp hrun
      have hresident := deref_eq_ok.mp hr
      obtain ⟨sent, herase⟩ := eraseFile_eq hresident
      rw [herase] at hrun
      obtain rfl := Except.ok.inj hrun
      exact Or.inr ⟨value, r, rfl, hresident, rfl⟩

/-- What `rename` does with a file that is there. -/
def moveFile (s : LRUCache) (user oldFilename newFilename value : Str) (commFd seqNum : Int) :
    Except Fault LRUCache := do
  let current ← deref s.tablets[user]?
  let s := s.setValue current (((s.heap current).value.erase oldFilename).insert newFilename value)
  .ok (if s.isPrimary then s.servermsg "+OK File renamed\r\n" commFd
    else s.send commFd ("DONE ".toList ++ user ++ ',' :: toStr seqNum ++ "\r\n".toList))

theorem rename_eq {fuel : Nat} {newFilename : Str} :
    s.rename fuel user filename newFilename commFd seqNum = s.getHelper fuel user filename commFd >>=
      fun result => match result.1 with
        | some value => result.2.moveFile user filename newFilename value commFd seqNum
        | none => .ok result.2 := rfl

theorem moveFile_eq_send {newFilename : Str} (hresident : s.tablets[user]? = some r) :
    s.moveFile user filename newFilename value commFd seqNum =
      .ok { s.setValue r (((s.heap r).value.erase filename).insert newFilename value) with
        sent := s.sent ++ [(commFd, if s.isPrimary then "+OK File renamed\r\n".toList
          else "DONE ".toList ++ user ++ ',' :: toStr seqNum ++ "\r\n".toList)] } := by
  rw [moveFile, hresident]
  simp only [deref, Run.ok_bind]
  have hprimary : ∀ files, (s.setValue r files).isPrimary = s.isPrimary := fun _ => rfl
  rw [hprimary]
  split_ifs <;> rfl

theorem moveFile_eq {newFilename : Str} (hresident : s.tablets[user]? = some r) :
    ∃ sent, s.moveFile user filename newFilename value commFd seqNum =
      .ok { s.setValue r (((s.heap r).value.erase filename).insert newFilename value) with sent := sent } :=
  ⟨_, moveFile_eq_send hresident⟩

theorem rename_ok {fuel : Nat} {newFilename : Str}
    (hrun : s.rename fuel user filename newFilename commFd seqNum = .ok s') :
    ∃ found t, s.getHelper fuel user filename commFd = .ok (found, t) ∧
      ((found = none ∧ s' = t) ∨
        ∃ value r, found = some value ∧ t.tablets[user]? = some r ∧
          s' = { t.setValue r (((t.heap r).value.erase filename).insert newFilename value) with
            sent := s'.sent }) := by
  rw [rename_eq] at hrun
  obtain ⟨⟨found, t⟩, hget, hrun⟩ := Run.bind_eq_ok.mp hrun
  refine ⟨found, t, hget, ?_⟩
  cases found with
  | none => exact Or.inl ⟨rfl, (Except.ok.inj hrun).symm⟩
  | some value =>
      have hrun : t.moveFile user filename newFilename value commFd seqNum = .ok s' := hrun
      obtain ⟨r, hr, _⟩ := Run.bind_eq_ok.mp hrun
      have hresident := deref_eq_ok.mp hr
      obtain ⟨sent, hmove⟩ := moveFile_eq hresident
      rw [hmove] at hrun
      obtain rfl := Except.ok.inj hrun
      exact Or.inr ⟨value, r, rfl, hresident, rfl⟩

end PennCloud.LRUCache
