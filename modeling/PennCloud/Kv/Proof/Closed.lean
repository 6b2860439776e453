import PennCloud.Kv.Proof.Steps

/-!
# What a command does

A command is made of a few steps: it stores a file in a new node or in that of a resident user, writes
the first user out, moves a node to the tail, erases or renames a file. Between them it counts, answers
and forgets records. A property that all of these keep holds after every command.
-/

namespace PennCloud.LRUCache

structure Closed (I : LRUCache → Prop) : Prop where
  still : ∀ s s', I s → Still s s' → I s'
  insert : ∀ s s' user filename value, I s → s.tablets[user]? = none → s.virmemMeta[user]? = none →
    s.insertUser user filename value = .ok s' → I s'
  store : ∀ s s' user filename new, I s → s.storeResident user filename new = .ok s' → I s'
  evict : ∀ s s', I s → s.useVirtualMemory = .ok s' → I s'
  move : ∀ s t s' r (user : Str), I s → s.tablets[user]? = some r → s.detach r = .ok t →
    t.moveToTail r = .ok s' → I s'
  erase : ∀ s r user filename, I s → s.tablets[user]? = some r → I (s.fileErased user filename r)
  rename : ∀ s r (user filename newFilename value : Str), I s → s.tablets[user]? = some r →
    I (s.setValue r (((s.heap r).value.erase filename).insert newFilename value))

variable {I : LRUCache → Prop} {s s' : LRUCache} {user filename value : Str} {commFd seqNum : Int}
  {fuel : Nat} {external : Bool}

theorem Closed.kept (h : Closed I) (user : Str) (commFd : Int) : Kept I (fun _ => True) user commFd where
  frame _ _ hs hquiet := h.still _ _ hs hquiet.still
  insert _ _ _ _ _ hs habsent hvirmem hrun := h.insert _ _ _ _ _ hs habsent hvirmem hrun
  store _ _ _ _ _ _ _ hs hrun := h.store _ _ _ _ _ hs hrun
  evict _ _ hs hrun := h.evict _ _ hs hrun
  pairs _ _ _ := trivial

theorem Closed.put (h : Closed I) (hs : I s)
    (hrun : LRUCache.put fuel s user filename value commFd external seqNum = .ok s') : I s' :=
  (h.kept user commFd).put hs trivial hrun

theorem Closed.fetched (h : Closed I) (hs : I s) (hrun : s.fetched fuel user commFd = .ok s') : I s' := by
  rw [LRUCache.fetched] at hrun
  split at hrun
  · exact (h.kept user commFd).loadUserFromDisk hs hrun
  · exact Except.ok.inj hrun ▸ hs

theorem Closed.sent (h : Closed I) (hs : I s) (sent : List (Int × Str)) : I { s with sent := sent } :=
  h.still _ _ hs (.of_eq rfl rfl rfl rfl rfl rfl rfl)

theorem Closed.getHelper (h : Closed I) {found : Option Str} (hs : I s)
    (hrun : s.getHelper fuel user filename commFd = .ok (found, s')) : I s' := by
  rcases getHelper_ok hrun with ⟨_, _, _, rfl⟩ | ⟨t, r, t', t'', hfetched, hr, hdetach, hmove, _, hs'⟩
  · exact h.still _ _ hs (quiet_send _).still
  · rw [hs']
    exact h.sent (h.move _ _ _ _ _ (h.fetched hs hfetched) hr hdetach hmove) _

/-- What every step keeps every command keeps. -/
theorem Closed.exec (h : Closed I) {op : Op} (hs : I s) (hrun : s.exec fuel op = .ok s') : I s' := by
  cases op with
  | put user filename value commFd seqNum => exact h.put hs hrun
  | get user filename commFd =>
      obtain ⟨found, t, hget, hs'⟩ := get_ok hrun
      rw [hs']
      exact h.sent (h.getHelper hs hget) _
  | cput user filename oldValue newValue commFd seqNum =>
      obtain ⟨found, t, hget, hcase⟩ := cput_ok hrun
      have ht := h.getHelper hs hget
      rcases hcase with ⟨_, hs'⟩ | ⟨rfl, stored, hput⟩
      · rw [hs']
        exact h.sent ht _
      · refine (h.kept user commFd).putHelper (fun s s' hs hrun => ?_) ?_ trivial hput
        · exact (h.kept user commFd).loadUserFromDisk hs hrun
        · exact h.still _ _ ht (.of_eq rfl rfl rfl rfl rfl rfl rfl)
  | dele user filename commFd seqNum isMigration =>
      obtain ⟨found, t, hget, hcase⟩ := dele_ok hrun
      have ht := h.getHelper hs hget
      rcases hcase with ⟨_, rfl⟩ | ⟨value, r, _, hr, hs'⟩
      · exact ht
      · rw [hs']
        exact h.sent (h.erase _ _ _ _ ht hr) _
  | rename user oldFilename newFilename commFd seqNum =>
      obtain ⟨found, t, hget, hcase⟩ := rename_ok hrun
      have ht := h.getHelper hs hget
      rcases hcase with ⟨_, rfl⟩ | ⟨value, r, _, hr, hs'⟩
      · exact ht
      · rw [hs']
        exact h.sent (h.rename _ _ _ _ _ _ ht hr) _

end PennCloud.LRUCache
