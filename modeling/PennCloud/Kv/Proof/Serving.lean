import PennCloud.Kv.Proof.Convergence
import PennCloud.Kv.Proof.Migration

/-!
# What serving a message is made of

A worker calls the methods of the cache with the descriptor of its connection, sends on that descriptor, logs lines,
and forwards to the secondary the lines it has executed as writes. A relation of states that each of these keeps
relates the states before and after every message.
-/

namespace PennCloud.Chunkserver

open LRUCache

/-- The line is one of the four commands that write, with its arguments, when it is read as a C string. -/
def IsWrite (line : Str) : Prop := ∃ request, requested (cstr line) = some request

/-- A relation between the states of a node that serves the descriptor `commFd`. -/
structure Serving (R : Chunkserver → Chunkserver → Prop) (commFd : Int) : Prop where
  refl : ∀ s, R s s
  trans : ∀ s t u, R s t → R t u → R s u
  exec : ∀ s fuel op lru, op.commFd = commFd → s.lru.exec fuel op = .ok lru → R s { s with lru := lru }
  getHelper : ∀ s fuel user filename found lru, s.lru.getHelper fuel user filename commFd = .ok (found, lru) →
    R s { s with lru := lru }
  send : ∀ s text, R s (s.send commFd text)
  log : ∀ s line, R s (s.writeLog line)
  forward : ∀ s line user s', IsWrite line → s.sendToSecondary line user = .ok s' → R s s'
  drop : ∀ s user seqNum, R s (s.dropReported user seqNum)
  greet : ∀ s, R s ({ s with secondaryFd := commFd } : Chunkserver).checkPrimaryHoldback

variable {R : Chunkserver → Chunkserver → Prop} {s s' t : Chunkserver} {user line buffer command : Str} {fuel : Nat}
  {commFd seqNum : Int} {external : Bool}

theorem Serving.perform (h : Serving R commFd) {op : Op} (hop : op.commFd = commFd) (hwrite : IsWrite line)
    (hrun : s.perform fuel line user external op = .ok s') : R s s' := by
  obtain ⟨lru, hexec, hrun⟩ := Run.bind_eq_ok.mp hrun
  refine h.trans _ _ _ (h.exec s fuel op lru hop hexec) ?_
  split at hrun
  · refine h.trans _ _ _ (h.log _ line) ?_
    dsimp only at hrun
    split at hrun
    · exact h.forward _ _ _ _ hwrite hrun
    · obtain rfl := Except.ok.inj hrun
      exact h.refl _
  · obtain rfl := Except.ok.inj hrun
    exact h.refl _

theorem Serving.writeCommand (h : Serving R commFd) {run : Except Fault Chunkserver} (hnul : '\x00' ∉ line)
    (hparse : parseCommand line = .ok command)
    (hcommand : s.writeCommand fuel command line commFd seqNum = some run) (hrun : run = .ok s') : R s s' := by
  rw [writeCommand_eq] at hcommand
  cases hrequest : writeRequest command line with
  | none =>
      rw [hrequest] at hcommand
      cases hcommand
  | some parsed =>
      rw [hrequest, Option.map_some] at hcommand
      obtain rfl := Option.some.inj hcommand
      obtain ⟨request, hparsed, hrun⟩ := Run.bind_eq_ok.mp hrun
      cases request with
      | none =>
          obtain rfl := Except.ok.inj hrun
          exact h.send _ _
      | some request =>
          rw [hparsed] at hrequest
          have hrequested := requested_of_writeRequest hparse hrequest
          have hwrite : IsWrite line := ⟨request, by rwa [cstr_of_notMem hnul]⟩
          exact h.perform (commFd_request hrequested commFd seqNum) hwrite hrun

theorem Serving.get (h : Serving R commFd) (hrun : s.get fuel line commFd = .ok s') : R s s' := by
  rw [get_eq] at hrun
  obtain ⟨request, hrequest, hrun⟩ := Run.bind_eq_ok.mp hrun
  cases request with
  | none =>
      obtain rfl := Except.ok.inj hrun
      exact h.send _ _
  | some request =>
      obtain ⟨user, filename, rfl⟩ := getRequest_eq hrequest
      obtain ⟨lru, hexec, hrun⟩ := Run.bind_eq_ok.mp hrun
      obtain rfl := Except.ok.inj hrun
      exact h.exec _ _ _ _ rfl hexec

theorem Serving.listFiles (h : Serving R commFd) {lru : LRUCache} {wanted : Str → Bool} {entry : Str → Str → Str}
    (hrun : s.lru.listFiles fuel user commFd wanted entry = .ok lru) : R s { s with lru := lru } := by
  rw [LRUCache.listFiles] at hrun
  split at hrun
  · obtain rfl := Except.ok.inj hrun
    exact h.send s _
  · refine Run.foldlM_invariant (P := fun lru => R s { s with lru := lru }) (fun t file t' _ ht hbody => ?_) (h.refl s)
      hrun
    refine h.trans _ _ _ ht ?_
    obtain ⟨file, counter⟩ := file
    dsimp only at hbody
    split at hbody
    · obtain ⟨⟨found, t₁⟩, hget, hbody⟩ := Run.bind_eq_ok.mp hbody
      refine h.trans _ _ _ (h.getHelper { s with lru := t } _ _ _ _ _ hget) ?_
      cases found with
      | none =>
          obtain rfl := Except.ok.inj hbody
          exact h.refl _
      | some value =>
          obtain rfl := Except.ok.inj hbody
          dsimp only
          split
          · exact h.trans _ _ _ (h.send { s with lru := t₁ } _) (h.send _ _)
          · exact h.send { s with lru := t₁ } _
    · obtain rfl := Except.ok.inj hbody
      exact h.refl _

/-- The line with which a migration deletes a file is a command. -/
theorem isWrite_dele (huser : ',' ∉ user) (hnul : '\x00' ∉ user) (filename : Str) :
    IsWrite ("dele ".toList ++ user ++ ',' :: (filename ++ "\r\n".toList)) := by
  have hfront : '\x00' ∉ "dele ".toList ++ user ++ [','] := by
    simp only [List.mem_append, not_or]
    exact ⟨⟨by decide, hnul⟩, by decide⟩
  have hcstr : cstr ("dele ".toList ++ user ++ ',' :: (filename ++ "\r\n".toList)) =
      "dele".toList ++ ' ' :: (user ++ ',' :: cstr (filename ++ "\r\n".toList)) := by
    rw [List.append_cons, cstr_append hfront, ← List.append_cons]
    rfl
  have harguments (rest : Str) : argumentsOf ("dele".toList ++ ' ' :: (user ++ ',' :: rest)) 5 = .ok (user ++ ',' :: rest) :=
    argumentsOf_append "dele ".toList _
  have hrequest (rest : Str) : deleRequest ("dele".toList ++ ' ' :: (user ++ ',' :: rest)) =
      .ok (some fun commFd seqNum => .dele user (chopTwo rest) commFd seqNum false) := by
    rw [deleRequest, harguments, Run.ok_bind, parseLine_two huser]
  have hcommand := parseCommand_append "dele".toList (by decide) (by decide)
    (user ++ ',' :: cstr (filename ++ "\r\n".toList))
  rw [IsWrite, hcstr]
  exact ⟨_, requested_of_writeRequest hcommand (congrArg some (hrequest _))⟩

theorem Serving.migrateData (h : Serving R commFd) (huser : ',' ∉ user) (hnul : '\x00' ∉ user) (hrun : s.migrateData fuel user commFd = .ok s') : R s s' := by
  obtain ⟨node, _, hrun⟩ := Run.bind_eq_ok.mp hrun
  obtain ⟨t, hsends, hrun⟩ := Run.bind_eq_ok.mp hrun
  have hfirst : R s t := by
    refine forEachFile_invariant (P := R s) (fun t filename t' ht hbody => h.trans _ _ _ ht ?_) (h.refl s) hsends
    obtain ⟨⟨found, lru⟩, hget, hbody⟩ := Run.bind_eq_ok.mp hbody
    refine h.trans _ _ _ (h.getHelper _ _ _ _ _ _ hget) ?_
    cases found with
    | none =>
        obtain rfl := Except.ok.inj hbody
        exact h.refl _
    | some value =>
        obtain rfl := Except.ok.inj hbody
        exact h.send _ _
  obtain ⟨node, _, hrun⟩ := Run.bind_eq_ok.mp hrun
  refine forEachFile_invariant (P := R s) (fun t filename t' ht hbody => h.trans _ _ _ ht ?_) hfirst hrun
  obtain ⟨⟨found, lru⟩, hget, hbody⟩ := Run.bind_eq_ok.mp hbody
  refine h.trans _ _ _ (h.getHelper _ _ _ _ _ _ hget) ?_
  cases found with
  | none =>
      obtain rfl := Except.ok.inj hbody
      exact h.refl _
  | some value =>
      obtain ⟨arguments, _, hbody⟩ := Run.bind_eq_ok.mp hbody
      split at hbody
      · exact h.perform rfl (isWrite_dele huser hnul _) hbody
      · obtain rfl := Except.ok.inj hbody
        exact h.send _ _

/-! ### One message -/

/-- The messages that are not answered: the greeting of the secondary, its reports, and `quit`. -/
def Unanswered (text : Str) : Prop :=
  text = "S\r\n".toList ∨ parseCommand text = .ok "done".toList ∨ parseCommand text = .ok "quit".toList

/-- What a message that is not answered does. -/
inductive Listens (s : Chunkserver) (commFd : Int) : Chunkserver → Prop where
  | greet : Listens s commFd ({ s with secondaryFd := commFd } : Chunkserver).checkPrimaryHoldback
  | drop (user : Str) (seqNum : Int) : Listens s commFd (s.dropReported user seqNum)
  | ignore : Listens s commFd s

theorem Serving.listens (h : Serving R commFd) (hs : Listens s commFd s') : R s s' := by
  cases hs with
  | greet => exact h.greet s
  | drop user seqNum => exact h.drop s user seqNum
  | ignore => exact h.refl s

/-- Serving a message keeps the relation. Whoever sends a message that is answered is sent a last line. -/
theorem Serving.worker_cases (h : Serving R commFd) (hrun : s.worker fuel commFd buffer = .ok s') :
    Unanswered (cstr buffer) ∧ Listens s commFd s' ∨
      ¬ Unanswered (cstr buffer) ∧ ∃ t, R s t ∧
        (s' = t.sendDone commFd ∨ s' = t.send commFd "MIGRATION DONE\r\n".toList ∨ s' = t.error commFd) := by
  rw [Chunkserver.worker] at hrun
  split at hrun
  · next hgreeting =>
      obtain rfl := Except.ok.inj hrun
      exact Or.inl ⟨Or.inl hgreeting, .greet⟩
  next hgreeting =>
  split at hrun
  · cases hrun
  obtain ⟨command, hparse, hrun⟩ := Run.bind_eq_ok.mp hrun
  have hanswered (hdone : command ≠ "done".toList) (hquit : command ≠ "quit".toList) : ¬ Unanswered (cstr buffer) := by
    rintro (hgreet | hparse' | hparse')
    · exact hgreeting hgreet
    · exact hdone (Except.ok.inj (hparse.symm.trans hparse'))
    · exact hquit (Except.ok.inj (hparse.symm.trans hparse'))
  -- the commands whose reply ends with the line that ends every reply
  have hends {run : Except Fault Chunkserver} (hdone : command ≠ "done".toList) (hquit : command ≠ "quit".toList)
      (hserves : ∀ t, run = .ok t → R s t) (hbind : (run >>= fun t => .ok (t.sendDone commFd)) = .ok s') :
      Unanswered (cstr buffer) ∧ Listens s commFd s' ∨ ¬ Unanswered (cstr buffer) ∧ ∃ t, R s t ∧
        (s' = t.sendDone commFd ∨ s' = t.send commFd "MIGRATION DONE\r\n".toList ∨ s' = t.error commFd) := by
    obtain ⟨t, ht, hbind⟩ := Run.bind_eq_ok.mp hbind
    exact Or.inr ⟨hanswered hdone hquit, t, hserves t ht, Or.inl (Except.ok.inj hbind).symm⟩
  split at hrun
  · next result hcommand =>
      have hne (word : Str) (hword : writeRequest word (cstr buffer) = none) : command ≠ word := by
        rintro rfl
        rw [writeCommand_eq, hword] at hcommand
        cases hcommand
      exact hends (hne _ rfl) (hne _ rfl) (fun t ht => h.writeCommand (notMem_cstr _) hparse hcommand ht) hrun
  split at hrun
  · next hget =>
      subst hget
      exact hends (by decide) (by decide) (fun t ht => h.get ht) hrun
  split at hrun
  · next hlist =>
      subst hlist
      refine hends (by decide) (by decide) (fun t ht => ?_) hrun
      obtain ⟨arguments, _, ht⟩ := Run.bind_eq_ok.mp ht
      split at ht
      · obtain ⟨lru, hlist, ht⟩ := Run.bind_eq_ok.mp ht
        exact Except.ok.inj ht ▸ h.listFiles hlist
      · exact Except.ok.inj ht ▸ h.send _ _
  split at hrun
  · next hfile =>
      subst hfile
      refine hends (by decide) (by decide) (fun t ht => ?_) hrun
      rw [Chunkserver.getfile] at ht
      split at ht
      · obtain ⟨user, _, ht⟩ := Run.bind_eq_ok.mp ht
        obtain ⟨lru, hlist, ht⟩ := Run.bind_eq_ok.mp ht
        exact Except.ok.inj ht ▸ h.listFiles hlist
      · exact Except.ok.inj ht ▸ h.send _ _
  split at hrun
  · next hdone =>
      obtain ⟨user, seqNum, rfl⟩ := handleSecondaryReport_ok hrun
      exact Or.inl ⟨Or.inr (Or.inl (hdone ▸ hparse)), .drop user seqNum⟩
  next hdone =>
  split at hrun
  · next hrequest =>
      subst hrequest
      obtain ⟨text, htext, hrun⟩ := Run.bind_eq_ok.mp hrun
      obtain ⟨t, husers, hrun⟩ := Run.bind_eq_ok.mp hrun
      have hnul (user : Str) (huser : user ∈ Fields.pieces ',' text) : '\x00' ∉ user := by
        intro hmem
        rw [substr] at htext
        split at htext
        · cases htext
        · obtain rfl := Except.ok.inj htext
          exact notMem_cstr _ (List.mem_of_mem_drop (List.mem_of_mem_take (Fields.mem_of_mem_pieces huser hmem)))
      have ht : R s t := Run.foldlM_invariant (P := R s) (fun t user t' huser ht hmigrate =>
        h.trans _ _ _ ht (h.migrateData (Fields.notMem_of_mem_pieces huser) (hnul user huser) hmigrate)) (h.refl s) husers
      exact Or.inr ⟨hanswered (by decide) (by decide), t, ht, Or.inr (Or.inl (Except.ok.inj hrun).symm)⟩
  split at hrun
  · next hquit =>
      obtain rfl := Except.ok.inj hrun
      exact Or.inl ⟨Or.inr (Or.inr (hquit ▸ hparse)), .ignore⟩
  next hquit => exact Or.inr ⟨hanswered hdone hquit, s, h.refl s, Or.inr (Or.inr (Except.ok.inj hrun).symm)⟩

theorem Serving.worker (h : Serving R commFd) (hrun : s.worker fuel commFd buffer = .ok s') : R s s' := by
  rcases h.worker_cases hrun with ⟨_, hs⟩ | ⟨_, t, ht, rfl | rfl | rfl⟩
  · exact h.listens hs
  · exact h.trans _ _ _ ht (h.send _ _)
  · exact h.trans _ _ _ ht (h.send _ _)
  · exact h.trans _ _ _ ht (h.send _ _)

theorem Serving.psWorker (h : Serving R commFd) (hrun : s.psWorker fuel commFd buffer = .ok s') : R s s' := by
  obtain ⟨⟨seqNum, line⟩, hsplit, hrun⟩ := Run.bind_eq_ok.mp hrun
  obtain ⟨command, hparse, hrun⟩ := Run.bind_eq_ok.mp hrun
  have hnul : '\x00' ∉ line := by
    obtain ⟨number, _, hbuffer⟩ := splitMessage_eq_ok hsplit
    intro hmem
    refine notMem_cstr buffer ?_
    rw [hbuffer]
    exact List.mem_append_right _ (List.mem_cons_of_mem _ hmem)
  cases hcommand : s.writeCommand fuel command line commFd seqNum with
  | none =>
      rw [hcommand] at hrun
      exact Except.ok.inj hrun ▸ h.refl s
  | some result =>
      rw [hcommand] at hrun
      exact h.writeCommand hnul hparse hcommand hrun

end PennCloud.Chunkserver
