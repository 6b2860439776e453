import PennCloud.Kv.Spec
import PennCloud.Kv.Kvstore
import PennCloud.Kv.Proof.Numbers
import PennCloud.Lib.Run

/-!
# What a line asks for

The five commands on files read their arguments from the line in the same way on every node: an
operation that waits for a descriptor to answer to and a sequence number. The client path, the path of
the secondary and the replay of the log execute this operation.
-/

namespace PennCloud

/-- An operation that waits for a descriptor and a sequence number. -/
abbrev Request := Int → Int → Op

namespace Chunkserver

variable {s s' : Chunkserver} {line user buffer command : Str} {commFd seqNum : Int} {fuel : Nat}
  {external : Bool} {request : Request}

/-! ### Reading the arguments -/

theorem argumentsOf_append (command rest : Str) : argumentsOf (command ++ rest) command.length = .ok rest := by
  rw [argumentsOf, if_neg (by simp), List.drop_left' rfl]

theorem parseLine_two (huser : ',' ∉ user) (rest : Str) : parseLine (user ++ ',' :: rest) 2 = [user, rest] := by
  rw [parseLine]
  simp only [Nat.reduceSub, takeFields, Fields.cut_append huser]

theorem parseLine_three {filename : Str} (huser : ',' ∉ user) (hfilename : ',' ∉ filename) (rest : Str) :
    parseLine (user ++ ',' :: (filename ++ ',' :: rest)) 3 = [user, filename, rest] := by
  rw [parseLine]
  simp only [Nat.reduceSub, takeFields, Fields.cut_append huser, Fields.cut_append hfilename]

theorem chopTwo_append (s : Str) : chopTwo (s ++ "\r\n".toList) = s := by
  rw [chopTwo]
  simp

theorem parseCommand_append (command : Str) (hcommand : ' ' ∉ command) (hne : command ≠ []) (rest : Str) :
    parseCommand (command ++ ' ' :: rest) = .ok (command.map Char.toLower) := by
  have hidx : (command ++ ' ' :: rest).findIdx (· == ' ') = command.length := by
    rw [List.findIdx_append, List.findIdx_eq_length_of_false, if_neg (Nat.lt_irrefl _), List.findIdx_cons]
    · simp
    · intro c hc
      simp only [beq_eq_false_iff_ne, ne_eq]
      rintro rfl
      exact hcommand hc
  have hlength : 0 < command.length ∧ command.length < (command ++ ' ' :: rest).length := by
    rw [List.length_append, List.length_cons]
    exact ⟨List.length_pos_iff.mpr hne, by omega⟩
  rw [parseCommand, hidx]
  simp only [if_pos hlength, List.take_left']

def putRequest (line : Str) : Except Fault (Option Request) := do
  let arguments ← argumentsOf line 4
  match parseLine arguments 3 with
  | [user, filename, value] => .ok (some (.put user filename value))
  | _ => .ok none

def cputRequest (line : Str) : Except Fault (Option Request) := do
  let arguments ← argumentsOf line 5
  match parseLine arguments 4 with
  | [user, filename, oldValue, newValue] =>
      .ok (some (.cput user filename (oldValue ++ "\r\n".toList) newValue))
  | _ => .ok none

def deleRequest (line : Str) : Except Fault (Option Request) := do
  let arguments ← argumentsOf line 5
  match parseLine arguments 2 with
  | [user, filename] =>
      .ok (some fun commFd seqNum => .dele user (chopTwo filename) commFd seqNum false)
  | _ => .ok none

def renameRequest (line : Str) : Except Fault (Option Request) := do
  let arguments ← argumentsOf line 7
  match parseLine arguments 3 with
  | [user, oldFilename, newFilename] => .ok (some (.rename user oldFilename (chopTwo newFilename)))
  | _ => .ok none

def getRequest (line : Str) : Except Fault (Option Request) := do
  let arguments ← argumentsOf line 4
  match parseLine arguments 2 with
  | [user, filename] => .ok (some fun commFd _ => .get user (chopTwo filename) commFd)
  | _ => .ok none

theorem putRequest_append {filename : Str} (huser : ',' ∉ user) (hfilename : ',' ∉ filename) (value : Str) :
    putRequest ("put ".toList ++ (user ++ ',' :: (filename ++ ',' :: value))) = .ok (some (.put user filename value)) := by
  have harguments : argumentsOf ("put ".toList ++ (user ++ ',' :: (filename ++ ',' :: value))) 4 = _ :=
    argumentsOf_append _ _
  rw [putRequest, harguments, Run.ok_bind, parseLine_three huser hfilename]

theorem getRequest_append (huser : ',' ∉ user) (filename : Str) :
    getRequest ("get ".toList ++ (user ++ ',' :: (filename ++ "\r\n".toList))) =
      .ok (some fun commFd _ => Op.get user filename commFd) := by
  have harguments : argumentsOf ("get ".toList ++ (user ++ ',' :: (filename ++ "\r\n".toList))) 4 = _ :=
    argumentsOf_append _ _
  rw [getRequest, harguments, Run.ok_bind, parseLine_two huser]
  simp only [chopTwo_append]

/-- What the four commands that write make of their arguments. -/
def obey (fuel : Nat) (s : Chunkserver) (line : Str) (external : Bool) (commFd seqNum : Int) :
    Option Request → Except Fault Chunkserver
  | some request => s.perform fuel line (request commFd seqNum).user external (request commFd seqNum)
  | none => .ok (s.error commFd)

theorem put_eq : s.put fuel line external commFd seqNum =
    putRequest line >>= s.obey fuel line external commFd seqNum := by
  rw [put, putRequest, bind_assoc]
  congr 1
  funext arguments
  generalize parseLine arguments 3 = fields
  rcases fields with _ | ⟨user, _ | ⟨filename, _ | ⟨value, _ | ⟨extra, rest⟩⟩⟩⟩ <;> rfl

theorem cput_eq : s.cput fuel line external commFd seqNum =
    cputRequest line >>= s.obey fuel line external commFd seqNum := by
  rw [cput, cputRequest, bind_assoc]
  congr 1
  funext arguments
  generalize parseLine arguments 4 = fields
  rcases fields with _ | ⟨user, _ | ⟨filename, _ | ⟨oldValue, _ | ⟨newValue, _ | ⟨extra, rest⟩⟩⟩⟩⟩ <;> rfl

theorem dele_eq : s.dele fuel line external false commFd seqNum =
    deleRequest line >>= s.obey fuel line external commFd seqNum := by
  rw [dele, deleRequest, bind_assoc]
  congr 1
  funext arguments
  generalize parseLine arguments 2 = fields
  rcases fields with _ | ⟨user, _ | ⟨filename, _ | ⟨extra, rest⟩⟩⟩ <;> rfl

theorem rename_eq : s.rename fuel line external commFd seqNum =
    renameRequest line >>= s.obey fuel line external commFd seqNum := by
  rw [rename, renameRequest, bind_assoc]
  congr 1
  funext arguments
  generalize parseLine arguments 3 = fields
  rcases fields with _ | ⟨user, _ | ⟨filename, _ | ⟨value, _ | ⟨extra, rest⟩⟩⟩⟩ <;> rfl

/-! ### The four commands that write -/

/-- What a line with one of the four commands that write asks for. -/
def writeRequest (command line : Str) : Option (Except Fault (Option Request)) :=
  if command = "put".toList then some (putRequest line)
  else if command = "cput".toList then some (cputRequest line)
  else if command = "dele".toList then some (deleRequest line)
  else if command = "rename".toList then some (renameRequest line)
  else none

theorem writeCommand_eq : s.writeCommand fuel command line commFd seqNum =
    (writeRequest command line).map (· >>= s.obey fuel line true commFd seqNum) := by
  rw [writeCommand, writeRequest, put_eq, cput_eq, dele_eq, rename_eq]
  split
  · rfl
  · split
    · rfl
    · split
      · rfl
      · split <;> rfl

/-- The write that a line asks for. -/
def requested (line : Str) : Option Request :=
  match parseCommand line with
  | .ok command =>
      match writeRequest command line with
      | some (.ok request) => request
      | _ => none
  | .error _ => none

theorem requested_eq_some (h : requested line = some request) :
    ∃ command, parseCommand line = .ok command ∧ writeRequest command line = some (.ok (some request)) := by
  rw [requested] at h
  split at h
  · next command hcommand =>
      split at h
      · next request' hrequest => exact ⟨command, hcommand, h ▸ hrequest⟩
      · exact absurd h (by simp)
  · exact absurd h (by simp)

theorem requested_of_writeRequest (hcommand : parseCommand line = .ok command)
    (hrequest : writeRequest command line = some (.ok (some request))) : requested line = some request := by
  rw [requested, hcommand]
  dsimp only
  rw [hrequest]

/-- The line is a get, or one of the four commands that write. -/
def Handles (line : Str) : Prop :=
  ∃ command, parseCommand line = .ok command ∧
    (command = "get".toList ∨ (writeRequest command line).isSome = true)

/-! ### A request of a client -/

def answerGet (fuel : Nat) (s : Chunkserver) (commFd : Int) : Option Request → Except Fault Chunkserver
  | some request => s.lru.exec fuel (request commFd 0) >>= fun lru => .ok { s with lru := lru }
  | none => .ok (s.error commFd)

theorem get_eq : s.get fuel line commFd = getRequest line >>= s.answerGet fuel commFd := by
  rw [get, getRequest, bind_assoc]
  congr 1
  funext arguments
  generalize parseLine arguments 2 = fields
  rcases fields with _ | ⟨user, _ | ⟨filename, _ | ⟨extra, rest⟩⟩⟩ <;> rfl

theorem not_greeting (hcommand : parseCommand (cstr buffer) = .ok command) (hs : command ≠ "s".toList)
    (hshutdown : command ≠ "shutdown".toList) :
    cstr buffer ≠ "S\r\n".toList ∧ cstr buffer ≠ "shutdown\r\n".toList := by
  constructor
  · intro heq
    rw [heq] at hcommand
    exact hs (Except.ok.inj hcommand).symm
  · intro heq
    rw [heq] at hcommand
    exact hshutdown (Except.ok.inj hcommand).symm

theorem worker_write {parsed : Except Fault (Option Request)} (hcommand : parseCommand (cstr buffer) = .ok command)
    (hparsed : writeRequest command (cstr buffer) = some parsed) :
    s.worker fuel commFd buffer =
      (parsed >>= s.obey fuel (cstr buffer) true commFd 0) >>= fun t => .ok (t.sendDone commFd) := by
  have hword {word : Str} (hnone : writeRequest word (cstr buffer) = none) : command ≠ word := by
    rintro rfl
    rw [hnone] at hparsed
    cases hparsed
  obtain ⟨hgreeting, hshutdown⟩ := not_greeting hcommand (hword rfl) (hword rfl)
  rw [worker]
  simp only [if_neg hgreeting, if_neg hshutdown, hcommand, Run.ok_bind, writeCommand_eq, hparsed,
    Option.map_some]

theorem worker_get (hcommand : parseCommand (cstr buffer) = .ok "get".toList) :
    s.worker fuel commFd buffer =
      (getRequest (cstr buffer) >>= s.answerGet fuel commFd) >>= fun t => .ok (t.sendDone commFd) := by
  obtain ⟨hgreeting, hshutdown⟩ := not_greeting hcommand (by decide) (by decide)
  have hnone : s.writeCommand fuel "get".toList (cstr buffer) commFd 0 = none := by
    rw [writeCommand_eq]
    rfl
  rw [worker]
  simp only [if_neg hgreeting, if_neg hshutdown, hcommand, Run.ok_bind, hnone, if_true, get_eq]

theorem worker_getlist (hcommand : parseCommand (cstr buffer) = .ok "getlist".toList) :
    s.worker fuel commFd buffer = s.getlist fuel (cstr buffer) commFd >>= fun t => .ok (t.sendDone commFd) := by
  obtain ⟨hgreeting, hshutdown⟩ := not_greeting hcommand (by decide) (by decide)
  have hnone : s.writeCommand fuel "getlist".toList (cstr buffer) commFd 0 = none := by
    rw [writeCommand_eq]
    rfl
  rw [worker]
  simp only [if_neg hgreeting, if_neg hshutdown, hcommand, Run.ok_bind, hnone]
  rfl

theorem worker_request (hcommand : parseCommand (cstr buffer) = .ok "request".toList) :
    s.worker fuel commFd buffer = s.dataMigration fuel (cstr buffer) commFd := by
  obtain ⟨hgreeting, hshutdown⟩ := not_greeting hcommand (by decide) (by decide)
  have hnone : s.writeCommand fuel "request".toList (cstr buffer) commFd 0 = none := by
    rw [writeCommand_eq]
    rfl
  rw [worker]
  simp only [if_neg hgreeting, if_neg hshutdown, hcommand, Run.ok_bind, hnone]
  rfl

/-! ### A message of the primary -/

theorem splitMessage_messageText (m : MsgPair) : splitMessage (messageText m) = .ok (m.sq, m.msg) := by
  rw [splitMessage, messageText, Fields.cut_append (notMem_toStr (by decide) (by decide))]
  dsimp only
  rw [atoi_toStr m.isInt]

theorem splitMessage_eq_ok (h : splitMessage buffer = .ok (seqNum, line)) :
    ∃ front, ',' ∉ front ∧ buffer = front ++ ',' :: line := by
  rw [splitMessage] at h
  split at h
  · next front rest hcut =>
      obtain ⟨hbuffer, hfront⟩ := Fields.cut_eq_some.mp hcut
      obtain ⟨_, rfl⟩ := Prod.mk.inj (Except.ok.inj h)
      exact ⟨front, hfront, hbuffer⟩
  · cases h

theorem cstr_of_notMem {text : Str} (htext : '\x00' ∉ text) : cstr text = text := by
  rw [cstr, List.takeWhile_eq_self_iff]
  intro c hc
  simp only [bne_iff_ne, ne_eq]
  rintro rfl
  exact htext hc

theorem cstr_append {front : Str} (hfront : '\x00' ∉ front) (rest : Str) : cstr (front ++ rest) = front ++ cstr rest := by
  rw [cstr, List.takeWhile_append_of_pos, cstr]
  intro c hc
  simp only [bne_iff_ne, ne_eq]
  rintro rfl
  exact hfront hc

theorem notMem_cstr (text : Str) : '\x00' ∉ cstr text := by
  intro hmem
  have hne := List.mem_takeWhile_imp hmem
  simp at hne

theorem notMem_messageText {m : MsgPair} (hmsg : '\x00' ∉ m.msg) : '\x00' ∉ messageText m := by
  rw [messageText, List.mem_append, List.mem_cons]
  rintro (hnumber | heq | hrest)
  · exact notMem_toStr (by decide) (by decide) hnumber
  · exact absurd heq (by decide)
  · exact hmsg hrest

theorem psWorker_eq {m : MsgPair} (hmsg : '\x00' ∉ m.msg) (hrequested : requested m.msg = some request) :
    s.psWorker fuel commFd (messageText m) =
      s.perform fuel m.msg (request commFd m.sq).user true (request commFd m.sq) := by
  obtain ⟨command, hcommand, hrequest⟩ := requested_eq_some hrequested
  rw [psWorker, cstr_of_notMem (notMem_messageText hmsg), splitMessage_messageText]
  simp only [Run.ok_bind, hcommand, writeCommand_eq, hrequest, Option.map_some, Option.getD_some]
  rfl

end Chunkserver

end PennCloud
