import PennCloud.Kv.Proof.Serving

/-!
# Rounds of a node

A node serves clients and its primary one message at a time. Between messages it may write a checkpoint. A property
that the steps of a command and a line in the log keep is kept by every message.
-/

namespace PennCloud

namespace Chunkserver

open LRUCache

/-- A property of the cache that every step of a command keeps, and so does a line in the log. -/
structure Lasting (I : LRUCache → Prop) : Prop where
  closed : Closed I
  log : ∀ (s : LRUCache) (line : Str), I s → I (s.act (.appendLog line))

variable {I : LRUCache → Prop} {s s' t : Chunkserver} {user line buffer : Str} {fuel : Nat}
  {commFd seqNum : Int} {external : Bool}

/-- Replies change nothing else. -/
theorem Lasting.send (h : Lasting I) (hs : I s.lru) (fd : Int) (text : Str) : I (s.send fd text).lru :=
  h.closed.sent hs _

theorem Lasting.sendToSecondary (h : Lasting I) (hs : I s.lru) (hrun : s.sendToSecondary line user = .ok s') :
    I s'.lru := by
  rw [Chunkserver.sendToSecondary] at hrun
  split at hrun
  · cases hrun
  · obtain rfl := Except.ok.inj hrun
    exact h.closed.sent hs _

theorem Lasting.perform (h : Lasting I) {op : Op} (hs : I s.lru)
    (hrun : s.perform fuel line user external op = .ok s') : I s'.lru := by
  obtain ⟨lru, hexec, hrun⟩ := Run.bind_eq_ok.mp hrun
  have hlru := h.closed.exec hs hexec
  split at hrun
  · dsimp only at hrun
    split at hrun
    · exact h.sendToSecondary (s := ({ s with lru := lru }).writeLog line) (h.log _ _ hlru) hrun
    · obtain rfl := Except.ok.inj hrun
      exact h.log _ _ hlru
  · obtain rfl := Except.ok.inj hrun
    exact hlru

theorem Lasting.obey (h : Lasting I) {request : Option Request} (hs : I s.lru)
    (hrun : s.obey fuel line external commFd seqNum request = .ok s') : I s'.lru := by
  cases request with
  | none =>
      obtain rfl := Except.ok.inj hrun
      exact h.send hs _ _
  | some request => exact h.perform hs hrun

theorem Lasting.serving (h : Lasting I) (commFd : Int) : Serving (fun s t => I s.lru → I t.lru) commFd where
  refl _ hs := hs
  trans _ _ _ h₁ h₂ hs := h₂ (h₁ hs)
  exec _ _ _ _ _ hexec hs := h.closed.exec hs hexec
  getHelper _ _ _ _ _ _ hget hs := h.closed.getHelper hs hget
  send _ _ hs := h.send hs _ _
  log _ _ hs := h.log _ _ hs
  forward _ _ _ _ _ hrun hs := h.sendToSecondary hs hrun
  drop _ _ _ hs := hs
  greet s hs := by
    rw [checkPrimaryHoldback_eq]
    exact h.closed.sent hs _

theorem Lasting.worker (h : Lasting I) (hs : I s.lru) (hrun : s.worker fuel commFd buffer = .ok s') : I s'.lru :=
  (h.serving commFd).worker hrun hs

theorem Lasting.psWorker (h : Lasting I) (hs : I s.lru) (hrun : s.psWorker fuel commFd buffer = .ok s') : I s'.lru :=
  (h.serving commFd).psWorker hrun hs

/-! ### Rounds -/

/-- What a node does next: a message of a client or of the secondary, a message of its primary, or a checkpoint. -/
inductive Round where
  | client (commFd : Int) (buffer : Str)
  | primary (sockFd : Int) (buffer : Str)
  | checkpoint
  deriving DecidableEq

def Takes (s : Chunkserver) : Round → Chunkserver → Prop
  | .client commFd buffer, t => ∃ fuel, s.worker fuel commFd buffer = .ok t
  | .primary sockFd buffer, t => ∃ fuel, s.psWorker fuel sockFd buffer = .ok t
  | .checkpoint, t => ∃ lru, s.lru.checkpointing = .ok lru ∧ t = { s with lru := lru }

theorem Lasting.rounds (h : Lasting I) (hcheckpoint : ∀ lru lru' : LRUCache, I lru → lru.checkpointing = .ok lru' → I lru')
    {rounds : List Round} (hs : I s.lru) (hrun : Run.Runs Takes s rounds t) : I t.lru := by
  refine Run.Runs.invariant (P := fun _ t => I t.lru) hs (fun rounds t round t' ht htakes => ?_) hrun
  cases round with
  | client commFd buffer => exact htakes.elim fun fuel hrun => h.worker ht hrun
  | primary sockFd buffer => exact htakes.elim fun fuel hrun => h.psWorker ht hrun
  | checkpoint =>
      obtain ⟨lru, hcheck, rfl⟩ := htakes
      exact hcheckpoint _ _ ht hcheck

end Chunkserver

end PennCloud
