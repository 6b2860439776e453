import PennCloud.Kv.Proof.Alike
import PennCloud.Kv.Proof.Convergence

/-!
# Replaying the log

The log holds the requests as they came, one behind the other. The replay reads it line by line and knows
three commands, in lower case. What it reads back as one of them it executes as the node did, on a cache that
has only answered differently since.
-/

namespace PennCloud.Chunkserver

open LRUCache Run

variable {s s' s₀ t t₀ : Chunkserver} {line command buffer : Str} {commFd seqNum : Int} {fuel : Nat}
  {request : Request} {requests : List (Int × Str)}

/-- A request does the same wherever its answer goes. -/
theorem alike_request {lru lru' : LRUCache} (hrequested : requested line = some request) (commFd' seqNum' : Int)
    (h : Alike lru lru') :
    Related Alike (lru.exec fuel (request commFd seqNum)) (lru'.exec fuel (request commFd' seqNum')) := by
  rcases requested_cases hrequested with ⟨_, _, _, rfl⟩ | ⟨_, _, _, _, rfl⟩ | ⟨_, _, rfl⟩ | ⟨_, _, _, rfl⟩
  · exact h.put
  · exact h.cput
  · exact h.dele
  · exact h.rename

/-! ### One request -/

/-- A request that is found again in the log: its only newline is its last byte, and its command is one of
the three that the replay compares with. -/
def Replayable (buffer : Str) : Prop := ∃ line, cstr buffer = line ++ ['\n'] ∧ '\n' ∉ line ∧
  (replayCommand line = "put".toList ∨ replayCommand line = "cput".toList ∨ replayCommand line = "dele".toList)

theorem parseCommand_of_replayCommand (hcommand : replayCommand line = command) (hne : command ≠ []) :
    parseCommand (line ++ ['\n']) = .ok (command.map Char.toLower) := by
  rw [replayCommand] at hcommand
  split at hcommand
  · next front rest hcut =>
      obtain ⟨rfl, hfront⟩ := Fields.cut_eq_some.mp hcut
      subst hcommand
      rw [List.append_assoc, List.cons_append]
      exact parseCommand_append front hfront hne _
  · exact absurd hcommand.symm hne

theorem replayLine_eq (fuel : Nat) (hline : '\x00' ∉ line) (hcommand : replayCommand line = "put".toList ∨
      replayCommand line = "cput".toList ∨ replayCommand line = "dele".toList) :
    parseCommand (line ++ ['\n']) = .ok (replayCommand line) ∧
      ∃ parsed, writeRequest (replayCommand line) (line ++ ['\n']) = some parsed ∧
        ∀ s : Chunkserver, s.replayLine fuel line = parsed >>= s.obey fuel (line ++ ['\n']) false (-1) 0 := by
  have hrecord : ∀ s : Chunkserver, s.replayLine fuel line =
      if replayCommand line = "put".toList then s.put fuel (line ++ ['\n']) false (-1) 0
      else if replayCommand line = "cput".toList then s.cput fuel (line ++ ['\n']) false (-1) 0
      else if replayCommand line = "dele".toList then s.dele fuel (line ++ ['\n']) false false (-1) 0
      else .ok s := by
    intro s
    rw [replayLine, cstr_of_notMem hline]
  rcases hcommand with hcommand | hcommand | hcommand
  · rw [parseCommand_of_replayCommand hcommand (by decide), hcommand]
    refine ⟨rfl, _, rfl, fun s => ?_⟩
    rw [hrecord, hcommand, ← put_eq]
    rfl
  · rw [parseCommand_of_replayCommand hcommand (by decide), hcommand]
    refine ⟨rfl, _, rfl, fun s => ?_⟩
    rw [hrecord, hcommand, ← cput_eq]
    rfl
  · rw [parseCommand_of_replayCommand hcommand (by decide), hcommand]
    refine ⟨rfl, _, rfl, fun s => ?_⟩
    rw [hrecord, hcommand, ← dele_eq]
    rfl

/-- What a request leaves behind: one more line of the log that leads a like cache to a like state, or no
line and a like cache. -/
theorem worker_replayable (hreplayable : Replayable buffer) (hrun : s.worker fuel commFd buffer = .ok s') :
    ∃ lines : List Str, (∀ line ∈ lines, '\n' ∉ line) ∧
      s'.lru.disk.log.getD [] = s.lru.disk.log.getD [] ++ Fields.terminate '\n' lines ∧
      ∀ t, Alike s.lru t.lru → ∃ t', lines.foldlM (replayLine fuel) t = .ok t' ∧ Alike s'.lru t'.lru := by
  obtain ⟨line, hbuffer, hline, hcommand⟩ := hreplayable
  have hnul : '\x00' ∉ line := fun hmem => notMem_cstr buffer (hbuffer ▸ List.mem_append_left _ hmem)
  obtain ⟨hparse, parsed, hparsed, hreplay⟩ := replayLine_eq fuel hnul hcommand
  rw [← hbuffer] at hparse hparsed hreplay
  rw [worker_write hparse hparsed] at hrun
  obtain ⟨t, hserved, hdone⟩ := Run.bind_eq_ok.mp hrun
  obtain rfl := Except.ok.inj hdone
  obtain ⟨request, hrequest, hserved⟩ := Run.bind_eq_ok.mp hserved
  rw [hrequest] at hparsed
  cases request with
  | none =>
      obtain rfl := Except.ok.inj hserved
      refine ⟨[], fun line hmem => absurd hmem List.not_mem_nil, (List.append_nil _).symm, fun t ht => ⟨t, rfl, ?_⟩⟩
      exact (alike_send ..).symm.trans ((alike_send ..).symm.trans ht)
  | some request =>
      have hrequested := requested_of_writeRequest hparse hparsed
      obtain ⟨lru, hexec, hprimary, hsecondary⟩ := perform_ok hserved
      have hleft : Alike lru t.lru ∧ t.lru.disk.log = some (s.lru.disk.log.getD [] ++ cstr buffer) := by
        have hlog : (lru.act (.appendLog (cstr buffer))).disk.log = some (s.lru.disk.log.getD [] ++ cstr buffer) := by
          rw [← (answers_exec hexec).log]
          rfl
        cases hrole : s.lru.isPrimary with
        | true =>
            obtain ⟨_, hlru, _⟩ := sendToSecondary_ok (hprimary hrole)
            rw [hlru]
            exact ⟨(alike_appendLog ..).trans (alike_send ..), hlog⟩
        | false =>
            rw [hsecondary hrole]
            exact ⟨alike_appendLog .., hlog⟩
      refine ⟨[line], fun l hl => List.mem_singleton.mp hl ▸ hline, ?_, fun t' ht' => ?_⟩
      · change t.lru.disk.log.getD [] = _
        rw [hleft.2, Option.getD_some, hbuffer, Fields.terminate_cons, Fields.terminate_nil]
      · obtain ⟨lru', hexec', halike⟩ := (alike_request hrequested (-1) 0 ht').exists_ok hexec
        refine ⟨{ t' with lru := lru' }, ?_, (alike_send ..).symm.trans (hleft.1.symm.trans halike)⟩
        rw [List.foldlM_cons, hreplay, hrequest, Run.ok_bind]
        change (t'.lru.exec fuel (request (-1) 0) >>= _) >>= _ = _
        rw [hexec']
        rfl

/-! ### All requests since the checkpoint -/

theorem foldlM_replayable (hrequests : ∀ request ∈ requests, Replayable request.2)
    (hrun : requests.foldlM (fun s request => s.worker fuel request.1 request.2) s₀ = .ok s) :
    ∃ lines : List Str, (∀ line ∈ lines, '\n' ∉ line) ∧
      s.lru.disk.log.getD [] = s₀.lru.disk.log.getD [] ++ Fields.terminate '\n' lines ∧
      ∀ t, Alike s₀.lru t.lru → ∃ t', lines.foldlM (replayLine fuel) t = .ok t' ∧ Alike s.lru t'.lru := by
  induction requests generalizing s₀ with
  | nil =>
      obtain rfl := Except.ok.inj hrun
      exact ⟨[], fun line hmem => absurd hmem List.not_mem_nil, (List.append_nil _).symm, fun t ht => ⟨t, rfl, ht⟩⟩
  | cons request requests ih =>
      rw [List.foldlM_cons] at hrun
      obtain ⟨s₁, hfirst, hrest⟩ := Run.bind_eq_ok.mp hrun
      obtain ⟨lines, hlines, hlog, hreplay⟩ := worker_replayable (hrequests request List.mem_cons_self) hfirst
      obtain ⟨lines', hlines', hlog', hreplay'⟩ :=
        ih (fun request hmem => hrequests request (List.mem_cons_of_mem _ hmem)) hrest
      refine ⟨lines ++ lines', fun line hmem => ?_, ?_, fun t ht => ?_⟩
      · exact (List.mem_append.mp hmem).elim (hlines line) (hlines' line)
      · rw [hlog', hlog, Fields.terminate_append, List.append_assoc]
      · obtain ⟨t₁, hrun₁, ht₁⟩ := hreplay t ht
        obtain ⟨t₂, hrun₂, ht₂⟩ := hreplay' t₁ ht₁
        exact ⟨t₂, by rw [List.foldlM_append, hrun₁, Run.ok_bind, hrun₂], ht₂⟩

theorem logLines_terminate {lines : List Str} (hlines : ∀ line ∈ lines, '\n' ∉ line) :
    logLines (Fields.terminate '\n' lines) = lines := by
  have hremainder : Fields.remainder '\n' (Fields.terminate '\n' lines ++ []) = Fields.remainder '\n' [] :=
    Fields.remainder_terminate_append hlines
  rw [List.append_nil, Fields.remainder_of_notMem List.not_mem_nil] at hremainder
  rw [logLines, Fields.pieces_terminate hlines, hremainder, if_pos rfl, List.append_nil]

/-- **The replay follows the requests it can read back.** From a state with an empty log, and from any like
node that finds the log of the requests. -/
theorem replayLog_of_requests (hempty : s₀.lru.disk.log.getD [] = [])
    (hrequests : ∀ request ∈ requests, Replayable request.2)
    (hrun : requests.foldlM (fun s request => s.worker fuel request.1 request.2) s₀ = .ok s)
    (hnode : Alike s₀.lru t₀.lru) (hlog : t₀.lru.disk.log = s.lru.disk.log) :
    ∃ t, t₀.replayLog fuel = .ok t ∧ t.lru.filesOf = s.lru.filesOf := by
  obtain ⟨lines, hlines, hwritten, hreplay⟩ := foldlM_replayable hrequests hrun
  obtain ⟨t, hreplayed, ht⟩ := hreplay t₀ hnode
  refine ⟨t, ?_, ht.filesOf⟩
  rw [replayLog, hlog, hwritten, hempty, List.nil_append, logLines_terminate hlines, hreplayed]

instance : DecidablePred Replayable := fun buffer =>
  decidable_of_iff
    (let line := (cstr buffer).dropLast
     cstr buffer = line ++ ['\n'] ∧ '\n' ∉ line ∧
      (replayCommand line = "put".toList ∨ replayCommand line = "cput".toList ∨ replayCommand line = "dele".toList))
    ⟨fun h => ⟨_, h⟩, fun ⟨line, hbuffer, hline⟩ => by
      have hdrop : (cstr buffer).dropLast = line := by rw [hbuffer, List.dropLast_concat]
      dsimp only
      rw [hdrop]
      exact ⟨hbuffer, hline⟩⟩

/-- A node that starts on the disk of another finds its log. -/
def withLog (s : Chunkserver) (log : Option Str) : Chunkserver :=
  { s with lru := { s.lru with disk := { s.lru.disk with log := log } } }

theorem replayLog_of_requests_three : ∃ s t : Chunkserver,
    ((fresh 10 true 9).withLog s.lru.disk.log).replayLog 3 = .ok t ∧ t.lru.filesOf = s.lru.filesOf := by
  let requests : List (Int × Str) :=
    [(4, "put u,f,a\r\n".toList), (4, "cput u,f,a,b\r\n".toList), (4, "dele u,g\r\n".toList)]
  let serve (s : Chunkserver) (request : Int × Str) : Except Fault Chunkserver := s.worker 3 request.1 request.2
  have hreturns : (requests.foldlM serve (fresh 10 true 9)).isOk = true := by decide +kernel
  cases hrun : requests.foldlM serve (fresh 10 true 9) with
  | error fault => exact absurd hreturns (by rw [hrun]; exact Bool.false_ne_true)
  | ok s =>
      have hnode : Alike (fresh 10 true 9).lru ((fresh 10 true 9).withLog s.lru.disk.log).lru := ⟨_, _, _, _, rfl⟩
      obtain ⟨t, hreplay, hfiles⟩ := replayLog_of_requests rfl (by decide +kernel) hrun hnode rfl
      exact ⟨s, t, hreplay, hfiles⟩

/-- A rename is not replayed, nor is a command in upper case, and a value is cut at its first newline. -/
theorem replayLog_loses : ∀ run ∈ [(["put u,f,a\r\n".toList, "rename u,f,g\r\n".toList], "g".toList),
      (["PUT u,f,a\r\n".toList], "f".toList), (["put u,f,a\nb\r\n".toList], "f".toList)],
    ∃ s t : Chunkserver, run.1.foldlM (fun (s : Chunkserver) request => s.worker 3 4 request) (fresh 10 true 9) = .ok s ∧
      ((fresh 10 true 9).withLog s.lru.disk.log).replayLog 3 = .ok t ∧
      t.lru.view "u".toList run.2 ≠ s.lru.view "u".toList run.2 := by
  intro run hmem
  have hfold : (match run.1.foldlM (fun (s : Chunkserver) request => s.worker 3 4 request) (fresh 10 true 9) with
      | .ok s => match ((fresh 10 true 9).withLog s.lru.disk.log).replayLog 3 with
          | .ok t => decide (t.lru.view "u".toList run.2 ≠ s.lru.view "u".toList run.2)
          | .error _ => false
      | .error _ => false) = true := by
    revert run
    decide +kernel
  cases hserved : run.1.foldlM (fun (s : Chunkserver) request => s.worker 3 4 request) (fresh 10 true 9) with
  | error fault => exact absurd hfold (by rw [hserved]; exact Bool.false_ne_true)
  | ok s =>
      rw [hserved] at hfold
      dsimp only at hfold
      cases hreplayed : ((fresh 10 true 9).withLog s.lru.disk.log).replayLog 3 with
      | error fault => exact absurd hfold (by rw [hreplayed]; exact Bool.false_ne_true)
      | ok t =>
          rw [hreplayed] at hfold
          exact ⟨s, t, rfl, hreplayed, of_decide_eq_true hfold⟩

/-- A put and a rename, from an empty node. -/
theorem not_replayLog_of_requests : ¬ ∀ (requests : List Str) (s t : Chunkserver),
    requests.foldlM (fun (s : Chunkserver) request => s.worker 3 4 request) (fresh 10 true 9) = .ok s →
    ((fresh 10 true 9).withLog s.lru.disk.log).replayLog 3 = .ok t → t.lru.filesOf = s.lru.filesOf := by
  intro hall
  obtain ⟨s, t, hserved, hreplayed, hlost⟩ := replayLog_loses _ List.mem_cons_self
  refine hlost ?_
  rw [view, view, hall _ s t hserved hreplayed]

end PennCloud.Chunkserver
