import PennCloud.Kv.Proof.Serving
import PennCloud.Kv.Proof.Stocked

/-!
# The role of a node

No message, no checkpoint and no start changes whether a node is a primary.
-/

namespace PennCloud.Chunkserver

open LRUCache

variable {s t : Chunkserver} {line buffer : Str} {commFd capacity secondaryFd : Int} {fuel : Nat} {isPrimary : Bool} {disk : Disk}

theorem serving_role (commFd : Int) : Serving (fun s t => t.lru.isPrimary = s.lru.isPrimary) commFd where
  refl _ := rfl
  trans _ _ _ h h' := h'.trans h
  exec _ _ _ _ _ hexec := (answers_exec hexec).role
  getHelper _ _ _ _ _ _ hget := (answers_getHelper hget).role
  send _ _ := rfl
  log _ _ := rfl
  forward s line user s' _ hrun := by
    obtain ⟨_, hlru, _⟩ := sendToSecondary_ok hrun
    rw [hlru]
    rfl
  drop _ _ _ := rfl
  greet s := by rw [checkPrimaryHoldback_eq]

theorem role_worker (hrun : s.worker fuel commFd buffer = .ok t) : t.lru.isPrimary = s.lru.isPrimary :=
  (serving_role commFd).worker hrun

theorem role_psWorker (hrun : s.psWorker fuel commFd buffer = .ok t) : t.lru.isPrimary = s.lru.isPrimary :=
  (serving_role commFd).psWorker hrun

theorem role_checkpointing {lru lru' : LRUCache} (hrun : lru.checkpointing = .ok lru') : lru'.isPrimary = lru.isPrimary := by
  obtain ⟨t, cp, vm, info, sizes, actions, hrows, _, rfl⟩ := checkpointing_ok hrun
  rw [emptied_eq] at hrows
  refine Run.foldlM_invariant (P := fun t => t.isPrimary = lru.isPrimary) ?_ rfl hrows
  intro t entry t' _ ht hrow
  exact (chunkStep_writeToChunkWith hrow).isPrimary.trans ht

/-! ### A start -/

theorem role_perform {op : Op} (hrun : s.perform fuel line user false op = .ok t) : t.lru.isPrimary = s.lru.isPrimary := by
  obtain ⟨lru, hexec, hrun⟩ := Run.bind_eq_ok.mp hrun
  obtain rfl := Except.ok.inj hrun
  exact (answers_exec hexec).role

theorem role_obey {request : Option Request} {seqNum : Int} (hrun : s.obey fuel line false commFd seqNum request = .ok t) :
    t.lru.isPrimary = s.lru.isPrimary := by
  cases request with
  | none =>
      obtain rfl := Except.ok.inj hrun
      rfl
  | some request => exact role_perform hrun

theorem role_replayLine (hrun : s.replayLine fuel line = .ok t) : t.lru.isPrimary = s.lru.isPrimary := by
  unfold replayLine at hrun
  dsimp only at hrun
  split at hrun
  · rw [put_eq] at hrun
    obtain ⟨request, _, hrun⟩ := Run.bind_eq_ok.mp hrun
    exact role_obey hrun
  split at hrun
  · rw [cput_eq] at hrun
    obtain ⟨request, _, hrun⟩ := Run.bind_eq_ok.mp hrun
    exact role_obey hrun
  split at hrun
  · rw [dele_eq] at hrun
    obtain ⟨request, _, hrun⟩ := Run.bind_eq_ok.mp hrun
    exact role_obey hrun
  · obtain rfl := Except.ok.inj hrun
    rfl

theorem role_initialization (hrun : (boot capacity isPrimary secondaryFd disk).initialization fuel false = .ok t) :
    t.lru.isPrimary = isPrimary := by
  obtain ⟨lru, hload, hreplay⟩ := Run.bind_eq_ok.mp hrun
  have hloaded : lru.isPrimary = isPrimary := by
    refine loadCheckpointing_invariant (I := fun lru => lru.isPrimary = isPrimary) (fun _ _ _ _ => rfl) ?_ (fun _ _ _ h => h) hload
    intro lru user lru' hlru huser
    exact ((kept_answers lru user).loadUserFromDisk .refl huser).role.trans hlru
  refine Run.foldlM_invariant (P := fun s : Chunkserver => s.lru.isPrimary = isPrimary) ?_ hloaded hreplay
  intro s line t _ hs hline
  exact (role_replayLine hline).trans hs

end PennCloud.Chunkserver
