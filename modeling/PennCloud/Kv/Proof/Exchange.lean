import PennCloud.Kv.Proof.Changes
import PennCloud.Kv.Proof.Ordered
import PennCloud.Kv.Proof.Replies
import PennCloud.Kv.Proof.Wired

/-!
# Exchanging a value

`cput` takes the old value off both counters before `put_helper` decides about the new one, and looks
at no result. A value that finds no room leaves without a word, and one over the quota leaves the
counters where they are.
-/

namespace PennCloud

/-- The commands that take no file away. -/
def Op.KeepsFiles : Op → Prop
  | .put _ _ _ _ _ => True
  | .get _ _ _ => True
  | .cput _ _ _ _ _ _ => True
  | .dele _ _ _ _ _ => False
  | .rename _ _ _ _ _ => False

instance : DecidablePred Op.KeepsFiles
  | .put _ _ _ _ _ => isTrue trivial
  | .get _ _ _ => isTrue trivial
  | .cput _ _ _ _ _ _ => isTrue trivial
  | .dele _ _ _ _ _ => isFalse id
  | .rename _ _ _ _ _ => isFalse id

theorem toInt32_sub_eq_iff {x : Int} (hx : toInt32 x = x) (y : Int) : toInt32 (x - y) = x ↔ toInt32 y = 0 := by
  have hrange := toInt32_range x
  have hrangeY := toInt32_range y
  rw [hx] at hrange
  rw [← toInt32_sub_toInt32_right]
  simp only [intMax] at hrange hrangeY
  constructor
  · intro heq
    have hsub : toInt32 (x - (x - toInt32 y)) = toInt32 (x - x) := by
      rw [← toInt32_sub_toInt32_right x (x - toInt32 y), heq]
    rw [show x - (x - toInt32 y) = toInt32 y by omega, toInt32_toInt32, Int.sub_self] at hsub
    exact hsub
  · intro hzero
    rw [hzero, Int.sub_zero, hx]

namespace LRUCache

open DList Std

variable {s s' t : LRUCache} {user filename oldValue newValue : Str} {commFd seqNum : Int} {fuel : Nat} {r : Ref}

/-! ### The counters are `int`s -/

structure Ranged (s : LRUCache) : Prop where
  memory : toInt32 s.memoryUsed = s.memoryUsed
  sizes : ∀ u, toInt32 (s.userSizeOf u) = s.userSizeOf u

theorem Ranged.congr (h : s.Ranged) (hmemory : s'.memoryUsed = s.memoryUsed)
    (hsizes : ∀ u, s'.userSizeOf u = s.userSizeOf u) : s'.Ranged := by
  refine ⟨?_, fun u => ?_⟩
  · rw [hmemory, h.memory]
  · rw [hsizes, h.sizes]

theorem Ranged.counted (h : s.Ranged) {m n : Int} (hmemory : s'.memoryUsed = toInt32 m)
    (hsizes : ∀ u, s'.userSizeOf u = if user = u then toInt32 n else s.userSizeOf u) : s'.Ranged := by
  refine ⟨?_, fun u => ?_⟩
  · rw [hmemory, toInt32_toInt32]
  · rw [hsizes]
    split
    · rw [toInt32_toInt32]
    · exact h.sizes u

theorem Ranged.discharged (h : s.Ranged) (size : Int) : (s.discharged user size).Ranged :=
  h.counted rfl (discharged_userSizeOf size)

theorem steady_ranged (user : Str) : Steady Ranged (fun _ => True) (fun _ _ => True) user commFd where
  inner := trivial
  touched _ _ _ h := h.congr (touched_memoryUsed ..) fun u => touched_userSizeOf u
  overQuota _ h := h.congr rfl fun _ => rfl
  oversized _ h := h.congr rfl fun _ => rfl
  charged t value external isCPUT seqNum _ h := by
    refine ⟨?_, fun u => ?_⟩
    · rw [charged_memoryUsed, toInt32_toInt32]
    · cases hcounts : external || isCPUT with
      | true =>
          rw [userSizeOf, charged_eq, hcounts, if_pos rfl, ExtTreeMap.getD_insert]
          split
          · exact toInt32_toInt32 _
          · exact h.sizes u
      | false =>
          rw [userSizeOf, charged_eq, hcounts, if_neg Bool.false_ne_true]
          exact h.sizes u
  cleared _ h := h.congr rfl fun _ => rfl
  insert _ _ _ _ _ h _ _ hrun := by
    obtain ⟨p, _, rfl⟩ := insertUser_ok hrun
    exact h.congr rfl fun _ => rfl
  store _ _ _ _ _ _ _ h hrun := by
    obtain ⟨r, _, hrun⟩ := Run.bind_eq_ok.mp hrun
    obtain ⟨L, rfl⟩ := moveToTail_relink hrun
    exact h.congr rfl fun _ => rfl
  evict _ _ h hrun := by
    obtain ⟨x, n, t, _, _, hwrite, rfl⟩ := useVirtualMemory_ok hrun
    have hstep := chunkStep_writeToChunkWith hwrite
    refine ⟨toInt32_toInt32 _, fun u => ?_⟩
    rw [userSizeOf, dropped_userSize, hstep.userSize]
    exact h.sizes u
  pairs _ _ _ := trivial

theorem Ranged.getHelper {found : Option Str} (h : s.Ranged)
    (hrun : s.getHelper fuel user filename commFd = .ok (found, s')) : s'.Ranged := by
  apply (steady_ranged user).getHelper (fun t L ht => ?_) (fun t ht => ?_) (fun t ht => ?_) h hrun
  · exact ht.congr rfl fun _ => rfl
  · exact ht.congr rfl fun _ => rfl
  · exact ht.congr rfl fun _ => rfl

theorem Ranged.exec {op : Op} (h : s.Ranged) (hrun : s.exec fuel op = .ok s') : s'.Ranged := by
  cases op with
  | put user filename value commFd seqNum => exact (steady_ranged user).put trivial h trivial hrun
  | get user filename commFd =>
      obtain ⟨found, t, hget, hs'⟩ := get_ok hrun
      rw [hs']
      exact (h.getHelper hget).congr rfl fun _ => rfl
  | cput user filename oldValue newValue commFd seqNum =>
      obtain ⟨found, t, hget, hcase⟩ := cput_ok hrun
      have ht := h.getHelper hget
      rcases hcase with ⟨_, hs'⟩ | ⟨_, stored, hput⟩
      · rw [hs']
        exact ht.congr rfl fun _ => rfl
      · refine (steady_ranged user).putHelper (fun s s' hs hload => ?_) trivial (ht.discharged _) trivial hput
        exact (steady_ranged user).loadUserFromDisk hs hload
  | dele user filename commFd seqNum isMigration =>
      obtain ⟨found, t, hget, hcase⟩ := dele_ok hrun
      have ht := h.getHelper hget
      rcases hcase with ⟨_, rfl⟩ | ⟨value, r, _, _, hs'⟩
      · exact ht
      · rw [hs']
        exact (ht.discharged _).congr rfl fun _ => rfl
  | rename user oldFilename newFilename commFd seqNum =>
      obtain ⟨found, t, hget, hcase⟩ := rename_ok hrun
      have ht := h.getHelper hget
      rcases hcase with ⟨_, rfl⟩ | ⟨value, r, _, _, hs'⟩
      · exact ht
      · rw [hs']
        exact ht.congr rfl fun _ => rfl

/-! ### The ends of an exchange -/

/-- The new value is stored. -/
structure Stored (s s' : LRUCache) (user filename oldValue newValue : Str) (commFd seqNum : Int) : Prop where
  contents : ∀ u, s'.filesOf u = if user = u then (s.filesOf user).insert filename newValue else s.filesOf u
  size : s'.userSizeOf user = toInt32 (s.userSizeOf user + ((newValue.length : Int) - oldValue.length))
  reply : s'.sent = s.sent ++ [(commFd, storedReply s.isPrimary true user seqNum)]

/-- Nothing has changed, and the client knows. -/
structure Rejected (s s' : LRUCache) (commFd : Int) : Prop where
  contents : ∀ u, s'.filesOf u = s.filesOf u
  memory : s'.memoryUsed = s.memoryUsed
  sizes : ∀ u, s'.userSizeOf u = s.userSizeOf u
  reply : ∃ msg, s'.sent = s.sent ++ [(commFd, "-ERR ".toList ++ msg)]

/-- The old value is off both counters, and that is all. -/
structure Lowered (s s' : LRUCache) (user : Str) (size : Int) : Prop where
  contents : ∀ u, s'.filesOf u = s.filesOf u
  memory : s'.memoryUsed = toInt32 (s.memoryUsed - size)
  sizes : ∀ u, s'.userSizeOf u = if user = u then toInt32 (s.userSizeOf user - size) else s.userSizeOf u

/-- The exchange returns, having stored the value or nothing; and it has stored the value if the old one was
the expected one and the user stays below the capacity. -/
def AllOrNothing (s : LRUCache) (user filename oldValue newValue : Str) (commFd seqNum : Int) : Prop :=
  ∃ s', (∀ fuel, s.cput fuel user filename oldValue newValue commFd seqNum = .ok s') ∧
    (Stored s s' user filename oldValue newValue commFd seqNum ∨ Rejected s s' commFd) ∧
    (s.view user filename = some oldValue →
      (total (s.filesOf user) : Int) - oldValue.length + newValue.length < s.capacity →
      Stored s s' user filename oldValue newValue commFd seqNum)

/-- What becomes of an expected value: the new one is within the quota and finds room, or it is over the
quota, rightly, and the old one counted for nothing. -/
def ExchangesWell (s : LRUCache) (user oldValue newValue : Str) : Prop :=
  let t := s.discharged user oldValue.length
  (t.exceedsQuota user newValue = false ∧ t.fits newValue = true) ∨
    (t.exceedsQuota user newValue = true ∧ toInt32 oldValue.length = 0 ∧
      s.capacity ≤ (total (s.filesOf user) : Int) - oldValue.length + newValue.length)

theorem lowered_discharged (L : Links Ref) (size : Int) :
    Lowered s (((s.relink L).discharged user size).touched user true true) user size := by
  refine ⟨fun u => ?_, ?_, fun u => ?_⟩
  · rw [filesOf_touched, filesOf_discharged]
    exact filesOf_congr rfl (fun _ => rfl) rfl rfl
  · rw [touched_memoryUsed]
    rfl
  · rw [touched_userSizeOf, discharged_userSizeOf]
    rfl

theorem Lowered.rejected {size : Int} {msg : Str} (h : Lowered s s' user size) (hranged : s.Ranged)
    (hsize : toInt32 size = 0) (hsent : s'.sent = s.sent ++ [(commFd, "-ERR ".toList ++ msg)]) :
    Rejected s s' commFd := by
  refine ⟨h.contents, ?_, fun u => ?_, msg, hsent⟩
  · rw [h.memory, (toInt32_sub_eq_iff hranged.memory size).mpr hsize]
  · rw [h.sizes]
    split
    · next heq => rw [(toInt32_sub_eq_iff (hranged.sizes user) size).mpr hsize, heq]
    · rfl

theorem Rejected.toInt32_eq_zero {size : Int} (h : Rejected s s' commFd) (hlowered : Lowered s s' user size)
    (hranged : s.Ranged) : toInt32 size = 0 := by
  apply (toInt32_sub_eq_iff hranged.memory size).mp
  rw [← hlowered.memory, h.memory]

theorem Wired.cput_rejected (h : s.Wired) (hresident : s.tablets[user]? = some r)
    (hview : s.view user filename ≠ some oldValue) (newValue : Str) (commFd seqNum : Int) :
    ∃ s', (∀ fuel, s.cput fuel user filename oldValue newValue commFd seqNum = .ok s') ∧ Rejected s s' commFd := by
  obtain ⟨L, _, hget⟩ := h.getHelper hresident
  have hrejected : ∀ msg, Rejected s ((s.relink L).send commFd ("-ERR ".toList ++ msg)) commFd := by
    intro msg
    exact ⟨fun u => filesOf_congr rfl (fun _ => rfl) rfl rfl, rfl, fun _ => rfl, msg, rfl⟩
  rw [view] at hview
  cases hfound : (s.filesOf user)[filename]? with
  | none =>
      refine ⟨_, fun fuel => ?_, hrejected "No such file\r\n".toList⟩
      rw [cput_eq, hget, hfound]
      rfl
  | some value =>
      refine ⟨_, fun fuel => ?_, hrejected "Version check fail\r\n".toList⟩
      rw [cput_eq, hget, hfound]
      have hne : value ≠ oldValue := fun heq => hview (hfound.trans (congrArg some heq))
      exact if_neg hne

theorem Wired.cput_expected (h : s.Wired) (hresident : s.tablets[user]? = some r)
    (hview : s.view user filename = some oldValue) (newValue : Str) (commFd seqNum : Int) :
    ∃ L, (s.relink L).Wired ∧ ∀ fuel, s.cput fuel user filename oldValue newValue commFd seqNum =
      ((s.relink L).discharged user oldValue.length).putHelper (reload fuel commFd) user filename newValue commFd true
        true seqNum >>= fun result => .ok result.2 := by
  obtain ⟨L, hwired, hget⟩ := h.getHelper hresident
  refine ⟨L, hwired, fun fuel => ?_⟩
  have hfound : (s.filesOf user)[filename]? = some oldValue := hview
  rw [cput_eq, hget, hfound]
  exact if_pos rfl

/-- Over the quota the counters stay lowered. -/
theorem Wired.cput_overQuota (h : s.Wired) (hresident : s.tablets[user]? = some r)
    (hview : s.view user filename = some oldValue)
    (hquota : (s.discharged user oldValue.length).exceedsQuota user newValue = true) (commFd seqNum : Int) :
    ∃ s', (∀ fuel, s.cput fuel user filename oldValue newValue commFd seqNum = .ok s') ∧
      Lowered s s' user oldValue.length ∧
      s'.sent = s.sent ++ [(commFd, "-ERR Your storage exceeds node capacity\r\n".toList)] := by
  obtain ⟨L, _, hcput⟩ := h.cput_expected hresident hview newValue commFd seqNum
  have hquota' : ((s.relink L).discharged user oldValue.length).exceedsQuota user newValue = true := hquota
  have hlowered : Lowered s (((s.relink L).discharged user oldValue.length).touched user true true) user oldValue.length :=
    lowered_discharged L oldValue.length
  refine ⟨(((s.relink L).discharged user oldValue.length).touched user true true).servermsg
    "-ERR Your storage exceeds node capacity\r\n" commFd, fun fuel => ?_, ⟨fun u => ?_, hlowered.memory, hlowered.sizes⟩, ?_⟩
  · rw [hcput, putHelper_eq, hquota']
    rfl
  · exact (filesOf_congr rfl (fun _ => rfl) rfl rfl).trans (hlowered.contents u)
  · rw [servermsg, send, touched_eq]
    rfl

/-- Without room the counters stay lowered, and nobody hears of it. -/
theorem Wired.cput_noRoom (h : s.Wired) (hresident : s.tablets[user]? = some r)
    (hview : s.view user filename = some oldValue)
    (hquota : (s.discharged user oldValue.length).exceedsQuota user newValue = false)
    (hfits : (s.discharged user oldValue.length).fits newValue = false) (commFd seqNum : Int) :
    ∃ s', (∀ fuel, s.cput fuel user filename oldValue newValue commFd seqNum = .ok s') ∧
      Lowered s s' user oldValue.length ∧ s'.sent = s.sent := by
  obtain ⟨L, _, hcput⟩ := h.cput_expected hresident hview newValue commFd seqNum
  have hquota' : ((s.relink L).discharged user oldValue.length).exceedsQuota user newValue = false := hquota
  have hfits' : ((s.relink L).discharged user oldValue.length).fits newValue = false := hfits
  refine ⟨((s.relink L).discharged user oldValue.length).touched user true true, fun fuel => ?_,
    lowered_discharged L oldValue.length, ?_⟩
  · rw [hcput, putHelper_eq, hquota', hfits']
    rfl
  · rw [touched_eq]
    rfl

theorem Tidy.replaced (h : t.Tidy) (filename newValue : Str) (hresident : t.tablets[user]? = some r) {p : Ref}
    (hprev : t.links.prev .tail = some p) :
    ∃ t', (∀ load, t.placeValue load user filename newValue true = .ok t') ∧
      (∀ u, t'.filesOf u = if user = u then (t.filesOf user).insert filename newValue else t.filesOf u) ∧
      t'.userSize = t.userSize ∧ t'.isPrimary = t.isPrimary ∧ t'.sent = t.sent := by
  refine ⟨_, fun load => placeValue_resident hresident (h.disjoint user r hresident) hprev (h.ne_tail hresident),
    fun u => ?_, rfl, rfl, rfl⟩
  rw [filesOf_of_resident hresident]
  exact (filesOf_congr rfl (fun _ => rfl) rfl rfl).trans (filesOf_setValue h hresident)

theorem Wired.cput_stored (h : s.Wired) (hresident : s.tablets[user]? = some r)
    (hview : s.view user filename = some oldValue)
    (hquota : (s.discharged user oldValue.length).exceedsQuota user newValue = false)
    (hfits : (s.discharged user oldValue.length).fits newValue = true) (commFd seqNum : Int) :
    ∃ s', (∀ fuel, s.cput fuel user filename oldValue newValue commFd seqNum = .ok s') ∧
      Stored s s' user filename oldValue newValue commFd seqNum := by
  obtain ⟨L, hwired, hcput⟩ := h.cput_expected hresident hview newValue commFd seqNum
  have hquota' : ((s.relink L).discharged user oldValue.length).exceedsQuota user newValue = false := hquota
  have hfits' : ((s.relink L).discharged user oldValue.length).fits newValue = true := hfits
  obtain ⟨p, hprev, _⟩ := hwired.exists_prev
  have hlowered : Lowered s (((s.relink L).discharged user oldValue.length).touched user true true) user oldValue.length :=
    lowered_discharged L oldValue.length
  have hdischarged : ((s.relink L).discharged user oldValue.length).Tidy :=
    hwired.tidy.congr rfl rfl (fun _ => rfl) rfl
  have hresident' : (((s.relink L).discharged user oldValue.length).touched user true true).tablets[user]? = some r := by
    rw [touched_tablets]
    exact hresident
  have hprev' : (((s.relink L).discharged user oldValue.length).touched user true true).links.prev .tail = some p := by
    rw [touched_links]
    exact hprev
  obtain ⟨t, hplace, hfiles, hsizes, hprimary, hsent⟩ := hdischarged.touched.replaced filename newValue hresident' hprev'
  refine ⟨t.charged user newValue commFd true true seqNum, fun fuel => ?_, fun u => ?_, ?_, ?_⟩
  · rw [hcput, putHelper_eq, hquota', hfits', hplace]
    rfl
  · rw [filesOf_charged, hfiles, hlowered.contents, hlowered.contents]
  · have hsize : t.userSizeOf user = toInt32 (s.userSizeOf user - oldValue.length) := by
      rw [userSizeOf, hsizes, ← userSizeOf, hlowered.sizes, if_pos rfl]
    rw [charged_userSizeOf, if_pos rfl, hsize, toInt32_add_toInt32]
    congr 1
    omega
  · rw [charged_sent, hprimary, hsent, touched_eq]
    rfl

/-! ### Exactly when -/

theorem storedReply_ne (isPrimary : Bool) (msg : Str) :
    storedReply isPrimary true user seqNum ≠ "-ERR ".toList ++ msg := by
  cases isPrimary with
  | true => exact fun heq => absurd (List.cons.inj heq).1 (by decide)
  | false => exact fun heq => absurd (List.cons.inj heq).1 (by decide)

theorem not_stored_of_error {msg : Str} (hsent : s'.sent = s.sent ++ [(commFd, "-ERR ".toList ++ msg)]) :
    ¬ Stored s s' user filename oldValue newValue commFd seqNum := by
  intro hstored
  have hlast := List.append_cancel_left (hstored.reply.symm.trans hsent)
  exact storedReply_ne _ _ (Prod.mk.inj (List.cons.inj hlast).1).2

theorem allOrNothing_of_cput (hcput : ∀ fuel, s.cput fuel user filename oldValue newValue commFd seqNum = .ok s') :
    s.AllOrNothing user filename oldValue newValue commFd seqNum ↔
      (Stored s s' user filename oldValue newValue commFd seqNum ∨ Rejected s s' commFd) ∧
        (s.view user filename = some oldValue →
          (total (s.filesOf user) : Int) - oldValue.length + newValue.length < s.capacity →
          Stored s s' user filename oldValue newValue commFd seqNum) := by
  constructor
  · rintro ⟨t, ht, hends⟩
    obtain rfl := Except.ok.inj ((hcput 0).symm.trans (ht 0))
    exact hends
  · exact fun hends => ⟨s', hcput, hends⟩

theorem Wired.exchanges_iff (h : s.Wired) (hranged : s.Ranged) (hresident : s.tablets[user]? = some r) :
    s.AllOrNothing user filename oldValue newValue commFd seqNum ↔
      (s.view user filename = some oldValue → s.ExchangesWell user oldValue newValue) := by
  by_cases hview : s.view user filename = some oldValue
  · rw [ExchangesWell]
    cases hquota : (s.discharged user oldValue.length).exceedsQuota user newValue with
    | true =>
        obtain ⟨s', hcput, hlowered, hsent⟩ := h.cput_overQuota hresident hview hquota commFd seqNum
        have hstored : ¬ Stored s s' user filename oldValue newValue commFd seqNum := not_stored_of_error hsent
        rw [allOrNothing_of_cput hcput]
        constructor
        · rintro ⟨hends, hbelow⟩ _
          have hzero := (hends.resolve_left hstored).toInt32_eq_zero hlowered hranged
          exact Or.inr ⟨rfl, hzero, Int.not_lt.mp fun hlt => hstored (hbelow hview hlt)⟩
        · intro hwell
          obtain ⟨_, hzero, hover⟩ := (hwell hview).resolve_left fun hboth => Bool.false_ne_true hboth.1.symm
          exact ⟨Or.inr (hlowered.rejected hranged hzero hsent), fun _ hlt => absurd hover (Int.not_le.mpr hlt)⟩
    | false =>
        cases hfits : (s.discharged user oldValue.length).fits newValue with
        | true =>
            obtain ⟨s', hcput, hstored⟩ := h.cput_stored hresident hview hquota hfits commFd seqNum
            rw [allOrNothing_of_cput hcput]
            exact ⟨fun _ _ => Or.inl ⟨rfl, rfl⟩, fun _ => ⟨Or.inl hstored, fun _ _ => hstored⟩⟩
        | false =>
            obtain ⟨s', hcput, _, hsent⟩ := h.cput_noRoom hresident hview hquota hfits commFd seqNum
            rw [allOrNothing_of_cput hcput]
            constructor
            · rintro ⟨hstored | hrejected, _⟩
              · exact absurd (hsent.symm.trans hstored.reply) (by simp)
              · obtain ⟨msg, hreply⟩ := hrejected.reply
                exact absurd (hsent.symm.trans hreply) (by simp)
            · intro hwell
              rcases hwell hview with ⟨_, hfalse⟩ | ⟨hfalse, _⟩
              · exact absurd hfalse Bool.false_ne_true
              · exact absurd hfalse Bool.false_ne_true
  · obtain ⟨s', hcput, hrejected⟩ := h.cput_rejected hresident hview newValue commFd seqNum
    rw [allOrNothing_of_cput hcput]
    exact ⟨fun _ hmatch => absurd hmatch hview, fun _ => ⟨Or.inr hrejected, fun hmatch => absurd hmatch hview⟩⟩

theorem wired_of_runs {condition : LRUCache → Op → Prop} {capacity : Int} {isPrimary : Bool} {chunkInfo : ChunkType → List Int}
    {disk : Disk} {ops : List Op} (hrun : Run.Runs (Steps condition) (init capacity isPrimary chunkInfo disk) ops s) :
    s.Wired := by
  refine hrun.invariant (P := fun _ s => s.Wired) wired_init ?_
  intro ops t op t' hwired hstep
  exact closed_wired.exec hwired hstep.2.choose_spec

theorem ranged_init {capacity : Int} {isPrimary : Bool} {chunkInfo : ChunkType → List Int} {disk : Disk} :
    (init capacity isPrimary chunkInfo disk).Ranged := by
  refine ⟨rfl, fun u => ?_⟩
  rw [userSizeOf]
  exact congrArg toInt32 ExtTreeMap.getD_empty |>.trans ExtTreeMap.getD_empty.symm

/-- **An exchange is all or nothing exactly when** the old value is not the expected one, or the new one is
stored, or the quota is really exceeded and the old value counted for nothing. -/
theorem allOrNothing_iff {capacity : Int} {isPrimary : Bool} {chunkInfo : ChunkType → List Int} {disk : Disk}
    {ops : List Op} (hrun : Run.Runs (Steps fun _ op => op.KeepsFiles) (init capacity isPrimary chunkInfo disk) ops s)
    (hresident : s.tablets[user]? = some r) :
    s.AllOrNothing user filename oldValue newValue commFd seqNum ↔
      (s.view user filename = some oldValue → s.ExchangesWell user oldValue newValue) := by
  have hinvariant : s.Wired ∧ s.Ranged := by
    refine hrun.invariant (P := fun _ s => s.Wired ∧ s.Ranged) ⟨wired_init, ranged_init⟩ ?_
    rintro ops t op t' ⟨hwired, hranged⟩ ⟨_, fuel, hexec⟩
    exact ⟨closed_wired.exec hwired hexec, hranged.exec hexec⟩
  exact hinvariant.1.exchanges_iff hinvariant.2 hresident

/-! ### Two exchanges -/

theorem allOrNothing_iff_shorter : ∃ s : LRUCache, s.view "u".toList "f".toList = some "aaaa".toList ∧
    s.AllOrNothing "u".toList "f".toList "aaaa".toList "bb".toList 7 0 := by
  have hends : endsIn (fun _ op => op.KeepsFiles) 1 (fresh 10 true) [.put "u".toList "f".toList "aaaa".toList 7 0]
      (fun s => decide (s.view "u".toList "f".toList = some "aaaa".toList ∧
        (s.discharged "u".toList 4).exceedsQuota "u".toList "bb".toList = false ∧
        (s.discharged "u".toList 4).fits "bb".toList = true ∧ s.tablets["u".toList]? = some (.node 0))) = true := by
    decide +kernel
  obtain ⟨s, hrun, hstate⟩ := runs_of_endsIn hends
  obtain ⟨hview, hquota, hfits, hresident⟩ := of_decide_eq_true hstate
  exact ⟨s, hview, (allOrNothing_iff hrun hresident).mpr fun _ => Or.inl ⟨hquota, hfits⟩⟩

/-- With another user in memory a longer value finds no room, and `cput` ends without a reply. -/
theorem not_allOrNothing_longer :
    ¬ ∀ (capacity : Int) (ops : List Op) s, Run.Runs (Steps fun _ op => op.KeepsFiles) (fresh capacity true) ops s →
      ∀ (user filename oldValue newValue : Str) (commFd seqNum : Int), (∃ r, s.tablets[user]? = some r) →
        s.AllOrNothing user filename oldValue newValue commFd seqNum := by
  intro hall
  have hends : endsIn (fun _ op => op.KeepsFiles) 1 (fresh 10 true)
      [.put "u".toList "f".toList "aaaa".toList 7 0, .put "v".toList "g".toList "bbbbb".toList 7 0]
      (fun s => decide (s.view "u".toList "f".toList = some "aaaa".toList ∧
        (s.discharged "u".toList 4).exceedsQuota "u".toList "cccccc".toList = false ∧
        (s.discharged "u".toList 4).fits "cccccc".toList = false ∧ s.tablets["u".toList]? = some (.node 0))) = true := by
    decide +kernel
  obtain ⟨s, hrun, hstate⟩ := runs_of_endsIn hends
  obtain ⟨hview, hquota, hfits, hresident⟩ := of_decide_eq_true hstate
  obtain ⟨s', hcput, _, hsent⟩ := (wired_of_runs hrun).cput_noRoom hresident hview hquota hfits 7 0
  have hclaimed := hall 10 _ s hrun "u".toList "f".toList "aaaa".toList "cccccc".toList 7 0 ⟨_, hresident⟩
  rw [allOrNothing_of_cput hcput] at hclaimed
  rcases hclaimed.1 with hstored | hrejected
  · exact absurd (hsent.symm.trans hstored.reply) (by simp)
  · obtain ⟨msg, hreply⟩ := hrejected.reply
    exact absurd (hsent.symm.trans hreply) (by simp)

end LRUCache

end PennCloud
