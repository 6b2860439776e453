import PennCloud.Kv.Proof.Steps
import PennCloud.Kv.Spec

/-!
# Replies

A command answers on the descriptor it was given, and on no other. It leaves the log and the role of
the node alone.
-/

namespace PennCloud

namespace LRUCache

variable {s s' : LRUCache} {user filename value : Str} {commFd seqNum : Int} {external isCPUT : Bool}

/-- The reply of a put or an exchange that has stored its value. -/
def storedReply (isPrimary isCPUT : Bool) (user : Str) (seqNum : Int) : Str :=
  if isPrimary then if isCPUT then "+OK New value stored\r\n".toList else "+OK Value stored\r\n".toList
  else Store.done user seqNum

theorem reportStored_sent : (s.reportStored user commFd isCPUT seqNum).sent =
    s.sent ++ [(commFd, storedReply s.isPrimary isCPUT user seqNum)] := by
  rw [reportStored, storedReply]
  split_ifs <;> rfl

theorem charged_sent : (s.charged user value commFd true isCPUT seqNum).sent =
    s.sent ++ [(commFd, storedReply s.isPrimary isCPUT user seqNum)] :=
  reportStored_sent

/-! ### One descriptor -/

theorem kept_answers (s : LRUCache) (user : Str) :
    Kept (fun s' => Answers s s' commFd) (fun _ => True) user commFd where
  frame _ _ hs hquiet := hs.trans hquiet.answers
  insert _ _ _ _ _ hs _ _ hrun := by
    obtain ⟨p, _, rfl⟩ := insertUser_ok hrun
    exact hs.trans (.of_eq rfl rfl rfl)
  store _ _ _ _ _ _ _ hs hrun := by
    obtain ⟨r, _, hrun⟩ := Run.bind_eq_ok.mp hrun
    obtain ⟨L, rfl⟩ := moveToTail_relink hrun
    exact hs.trans (.of_eq rfl rfl rfl)
  evict _ _ hs hrun := by
    obtain ⟨x, n, t, _, _, hwrite, rfl⟩ := useVirtualMemory_ok hrun
    have hstep := chunkStep_writeToChunkWith hwrite
    exact hs.trans (.of_eq hstep.isPrimary hstep.log hstep.sent)
  pairs _ _ _ := trivial

theorem Answers.refl : Answers s s commFd := .of_eq rfl rfl rfl

theorem answers_getHelper {fuel : Nat} {found : Option Str}
    (hrun : s.getHelper fuel user filename commFd = .ok (found, s')) : Answers s s' commFd := by
  apply (kept_answers s user).steady.getHelper (fun t L ht => ?_) (fun t ht => ?_) (fun t ht => ?_) .refl hrun
  · exact ht.trans (.of_eq rfl rfl rfl)
  · exact ht.trans (answers_send _)
  · exact ht.trans (answers_send _)

theorem answers_put {fuel : Nat} (hrun : s.put fuel user filename value commFd external seqNum = .ok s') :
    Answers s s' commFd :=
  (kept_answers s user).put .refl trivial hrun

theorem answers_cput {fuel : Nat} {oldValue newValue : Str}
    (hrun : s.cput fuel user filename oldValue newValue commFd seqNum = .ok s') : Answers s s' commFd := by
  rw [cput_eq] at hrun
  obtain ⟨⟨found, t⟩, hget, hrun⟩ := Run.bind_eq_ok.mp hrun
  refine (answers_getHelper hget).trans ?_
  cases found with
  | none => exact Except.ok.inj hrun ▸ .refl
  | some found =>
      dsimp only at hrun
      split at hrun
      · obtain ⟨⟨stored, t'⟩, hput, hrun⟩ := Run.bind_eq_ok.mp hrun
        obtain rfl := Except.ok.inj hrun
        have hdischarged : Answers t (t.discharged user oldValue.length) commFd := .of_eq rfl rfl rfl
        refine (kept_answers t user).putHelper (fun s s' hs hrun => ?_) hdischarged trivial hput
        exact (kept_answers t user).loadUserFromDisk hs hrun
      · exact Except.ok.inj hrun ▸ answers_send _

theorem answers_get {fuel : Nat} (hrun : s.get fuel user filename commFd = .ok s') : Answers s s' commFd := by
  obtain ⟨⟨found, t⟩, hget, hrun⟩ := Run.bind_eq_ok.mp hrun
  refine (answers_getHelper hget).trans ?_
  cases found with
  | none => exact Except.ok.inj hrun ▸ .refl
  | some value => exact Except.ok.inj hrun ▸ (answers_send _).trans (answers_send _)

theorem answers_dele {fuel : Nat} {isMigration : Bool}
    (hrun : s.dele fuel user filename commFd seqNum isMigration = .ok s') : Answers s s' commFd := by
  obtain ⟨⟨found, t⟩, hget, hrun⟩ := Run.bind_eq_ok.mp hrun
  refine (answers_getHelper hget).trans ?_
  cases found with
  | none => exact Except.ok.inj hrun ▸ .refl
  | some value =>
      obtain ⟨r, _, hrun⟩ := Run.bind_eq_ok.mp hrun
      have hreport : ∀ t : LRUCache, Answers t (t.reportDeleted user commFd seqNum isMigration) commFd := by
        intro t
        unfold reportDeleted
        split
        · split
          · exact .refl
          · exact answers_send _
        · split
          · exact answers_send _
          · exact .refl
      have hbefore : Answers t ((t.discharged user ((t.heap r).value.getD filename []).length).setValue r
          ((t.heap r).value.erase filename)) commFd := .of_eq rfl rfl rfl
      have hafter := hbefore.trans (hreport _)
      dsimp only at hrun
      split at hrun
      · obtain rfl := Except.ok.inj hrun
        exact hafter.trans (.of_eq rfl rfl rfl)
      · obtain rfl := Except.ok.inj hrun
        exact hafter

theorem answers_rename {fuel : Nat} {newFilename : Str}
    (hrun : s.rename fuel user filename newFilename commFd seqNum = .ok s') : Answers s s' commFd := by
  obtain ⟨⟨found, t⟩, hget, hrun⟩ := Run.bind_eq_ok.mp hrun
  refine (answers_getHelper hget).trans ?_
  cases found with
  | none => exact Except.ok.inj hrun ▸ .refl
  | some value =>
      obtain ⟨r, _, hrun⟩ := Run.bind_eq_ok.mp hrun
      obtain rfl := Except.ok.inj hrun
      have hset : Answers t (t.setValue r (((t.heap r).value.erase filename).insert newFilename value)) commFd :=
        .of_eq rfl rfl rfl
      split
      · exact hset.trans (answers_send _)
      · exact hset.trans (answers_send _)

theorem answers_exec {fuel : Nat} {op : Op} (hrun : s.exec fuel op = .ok s') : Answers s s' op.commFd := by
  cases op with
  | put => exact answers_put hrun
  | get => exact answers_get hrun
  | cput => exact answers_cput hrun
  | dele => exact answers_dele hrun
  | rename => exact answers_rename hrun

end LRUCache

end PennCloud
