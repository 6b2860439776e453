import PennCloud.Kv.Proof.Requests

/-!
# Segments of the stream

The secondary takes what one `recv` returns for one message. It executes what was sent iff the transport delivers
the messages one by one.
-/

namespace PennCloud.Chunkserver

variable {s : Chunkserver} {buffer line : Str} {fuel : Nat} {sockFd seqNum : Int} {messages : List MsgPair}
  {chunks : List Str} {pairs : List (Int × Str)} {m : MsgPair}

/-! ### What is executed -/

/-- The number and the line that a round of `ps_worker` hands on to a command, if it knows the command. -/
def executed (buffer : Str) : Except Fault (Option (Int × Str)) := do
  let (seqNum, line) ← splitMessage (cstr buffer)
  let command ← parseCommand line
  .ok (if (writeRequest command line).isSome then some (seqNum, line) else none)

/-- The numbers and lines executed for the results of `recv`, in order. -/
def executedAll : List Str → Except Fault (List (Int × Str))
  | [] => .ok []
  | buffer :: buffers => do
      let first ← executed buffer
      let rest ← executedAll buffers
      .ok (first.toList ++ rest)

/-- The command that the word in front of a line names. -/
def execute (fuel : Nat) (s : Chunkserver) (line : Str) (sockFd seqNum : Int) : Except Fault Chunkserver := do
  let command ← parseCommand line
  (s.writeCommand fuel command line sockFd seqNum).getD (.ok s)

theorem psWorker_eq_execute : s.psWorker fuel sockFd buffer = executed buffer >>= fun
    | some (seqNum, line) => s.execute fuel line sockFd seqNum
    | none => .ok s := by
  rw [psWorker, executed]
  cases hsplit : splitMessage (cstr buffer) with
  | error e => rfl
  | ok pair =>
      obtain ⟨seqNum, line⟩ := pair
      cases hcommand : parseCommand line with
      | error e => simp only [Run.ok_bind, hcommand]; rfl
      | ok command =>
          simp only [Run.ok_bind, hcommand, writeCommand_eq]
          cases hrequest : writeRequest command line with
          | none => rfl
          | some parsed =>
              simp only [Option.isSome_some, if_true, Run.ok_bind, execute, hcommand, writeCommand_eq, hrequest]

theorem foldlM_psWorker (h : executedAll chunks = .ok pairs) (s : Chunkserver) :
    chunks.foldlM (fun s buffer => s.psWorker fuel sockFd buffer) s =
      pairs.foldlM (fun s pair => s.execute fuel pair.2 sockFd pair.1) s := by
  induction chunks generalizing pairs s with
  | nil =>
      obtain rfl := Except.ok.inj h
      rfl
  | cons buffer chunks ih =>
      obtain ⟨first, hfirst, h⟩ := Run.bind_eq_ok.mp h
      obtain ⟨rest, hrest, h⟩ := Run.bind_eq_ok.mp h
      obtain rfl := Except.ok.inj h
      rw [List.foldlM_cons, psWorker_eq_execute, hfirst, Run.ok_bind]
      cases first with
      | none => exact ih hrest s
      | some pair => exact Run.bind_congr fun t _ => ih hrest t

/-- A line that the secondary executes. -/
def IsCommand (line : Str) : Prop := ∃ command, parseCommand line = .ok command ∧ (writeRequest command line).isSome

theorem executed_messageText (hnul : '\x00' ∉ m.msg) (hcommand : IsCommand m.msg) :
    executed (messageText m) = .ok (some (m.sq, m.msg)) := by
  obtain ⟨command, hparse, hknown⟩ := hcommand
  rw [executed, cstr_of_notMem (notMem_messageText hnul), splitMessage_messageText, Run.ok_bind]
  dsimp only
  rw [hparse, Run.ok_bind, if_pos hknown]

theorem executedAll_messageText (hlines : ∀ m ∈ messages, '\x00' ∉ m.msg ∧ IsCommand m.msg) :
    executedAll (messages.map messageText) = .ok (messages.map fun m => (m.sq, m.msg)) := by
  induction messages with
  | nil => rfl
  | cons m messages ih =>
      obtain ⟨hnul, hcommand⟩ := hlines m List.mem_cons_self
      rw [List.map_cons, executedAll, executed_messageText hnul hcommand, Run.ok_bind,
        ih fun m hm => hlines m (List.mem_cons_of_mem _ hm), Run.ok_bind]
      rfl

/-! ### Commas -/

theorem count_of_splitMessage (h : splitMessage buffer = .ok (seqNum, line)) :
    buffer.count ',' = line.count ',' + 1 := by
  obtain ⟨front, hfront, rfl⟩ := splitMessage_eq_ok h
  rw [List.count_append, List.count_eq_zero.mpr hfront, List.count_cons_self, Nat.zero_add]

theorem executed_cases {first : Option (Int × Str)} (hnul : '\x00' ∉ buffer) (h : executed buffer = .ok first) :
    ∃ pair, splitMessage buffer = .ok pair ∧ (first = some pair ∨ first = none) := by
  rw [executed, cstr_of_notMem hnul] at h
  obtain ⟨⟨seqNum, line⟩, hsplit, h⟩ := Run.bind_eq_ok.mp h
  obtain ⟨command, _, h⟩ := Run.bind_eq_ok.mp h
  refine ⟨(seqNum, line), hsplit, ?_⟩
  rw [← Except.ok.inj h]
  split
  · exact Or.inl rfl
  · exact Or.inr rfl

/-- The commas of what is executed: one behind each number, and those of the lines. -/
def commas (pairs : List (Int × Str)) : Nat := (pairs.map fun pair => pair.2.count ',' + 1).sum

/-- A message that is passed over has a comma that nothing executed accounts for. -/
theorem commas_le (hnul : ∀ buffer ∈ chunks, '\x00' ∉ buffer) (h : executedAll chunks = .ok pairs) :
    commas pairs ≤ chunks.flatten.count ',' ∧
      (commas pairs = chunks.flatten.count ',' → ∀ buffer ∈ chunks, ∃ pair, executed buffer = .ok (some pair)) := by
  induction chunks generalizing pairs with
  | nil =>
      obtain rfl := Except.ok.inj h
      exact ⟨Nat.le_refl _, fun _ buffer hbuffer => absurd hbuffer List.not_mem_nil⟩
  | cons buffer chunks ih =>
      obtain ⟨first, hfirst, h⟩ := Run.bind_eq_ok.mp h
      obtain ⟨rest, hrest, h⟩ := Run.bind_eq_ok.mp h
      obtain ⟨hle, hall⟩ := ih (fun buffer hbuffer => hnul buffer (List.mem_cons_of_mem _ hbuffer)) hrest
      obtain ⟨⟨seqNum, line⟩, hsplit, hcases⟩ := executed_cases (hnul buffer List.mem_cons_self) hfirst
      have hcount := count_of_splitMessage hsplit
      obtain rfl := Except.ok.inj h
      rw [List.flatten_cons, List.count_append]
      rcases hcases with rfl | rfl
      · have hcommas : commas ((some (seqNum, line)).toList ++ rest) = line.count ',' + 1 + commas rest := rfl
        rw [hcommas, hcount]
        refine ⟨Nat.add_le_add_left hle _, fun heq buffer' hbuffer' => ?_⟩
        rcases List.mem_cons.mp hbuffer' with rfl | hlater
        · exact ⟨(seqNum, line), hfirst⟩
        · exact hall (Nat.add_left_cancel heq) buffer' hlater
      · have hcommas : commas ((none : Option (Int × Str)).toList ++ rest) = commas rest := rfl
        rw [hcommas, hcount]
        exact ⟨by omega, fun heq => by omega⟩

theorem commas_messages (messages : List MsgPair) :
    commas (messages.map fun m => (m.sq, m.msg)) = (messages.flatMap messageText).count ',' := by
  induction messages with
  | nil => rfl
  | cons m messages ih =>
      rw [List.flatMap_cons, List.count_append, ← ih, count_of_splitMessage (splitMessage_messageText m)]
      rfl

/-! ### One message at a time -/

/-- When nothing is passed over, the messages are cut where they were joined. -/
theorem eq_messageText (hnul : ∀ buffer ∈ chunks, '\x00' ∉ buffer)
    (hall : ∀ buffer ∈ chunks, ∃ pair, executed buffer = .ok (some pair))
    (hstream : chunks.flatten = messages.flatMap messageText)
    (h : executedAll chunks = .ok (messages.map fun m => (m.sq, m.msg))) : chunks = messages.map messageText := by
  induction chunks generalizing messages with
  | nil =>
      have hnil := Except.ok.inj h
      rw [List.map_eq_nil_iff.mp hnil.symm, List.map_nil]
  | cons buffer chunks ih =>
      obtain ⟨pair, hpair⟩ := hall buffer List.mem_cons_self
      obtain ⟨first, hfirst, h⟩ := Run.bind_eq_ok.mp h
      obtain ⟨rest, hrest, h⟩ := Run.bind_eq_ok.mp h
      obtain rfl : some pair = first := Except.ok.inj (hpair.symm.trans hfirst)
      cases messages with
      | nil => cases Except.ok.inj h
      | cons m messages =>
          obtain ⟨rfl, rfl⟩ := List.cons.inj (Except.ok.inj h)
          obtain ⟨pair, hsplit, hsame | hnone⟩ := executed_cases (hnul buffer List.mem_cons_self) hfirst
          · obtain rfl := Option.some.inj hsame
            obtain ⟨front, hfront, rfl⟩ := splitMessage_eq_ok hsplit
            rw [List.flatten_cons, List.flatMap_cons, messageText, List.append_assoc, List.append_assoc,
              List.cons_append, List.cons_append] at hstream
            have hcut := congrArg (Fields.cut ',') hstream
            rw [Fields.cut_append hfront, Fields.cut_append (notMem_toStr (by decide) (by decide))] at hcut
            obtain ⟨hfronts, hrests⟩ := Prod.mk.inj (Option.some.inj hcut)
            rw [List.map_cons, messageText, hfronts, ← ih (fun buffer hbuffer => hnul buffer
              (List.mem_cons_of_mem _ hbuffer)) (fun buffer hbuffer => hall buffer (List.mem_cons_of_mem _ hbuffer))
              (List.append_cancel_left hrests) hrest]
          · cases hnone

/-- What was sent is executed iff each `recv` returns one message. -/
theorem executedAll_iff (hlines : ∀ m ∈ messages, '\x00' ∉ m.msg ∧ IsCommand m.msg)
    (hstream : chunks.flatten = messages.flatMap messageText) :
    executedAll chunks = .ok (messages.map fun m => (m.sq, m.msg)) ↔ chunks = messages.map messageText := by
  constructor
  · intro h
    have hnul : ∀ buffer ∈ chunks, '\x00' ∉ buffer := by
      intro buffer hbuffer hmem
      have hin : '\x00' ∈ messages.flatMap messageText := hstream ▸ List.mem_flatten.mpr ⟨buffer, hbuffer, hmem⟩
      obtain ⟨m, hm, hin⟩ := List.mem_flatMap.mp hin
      exact notMem_messageText (hlines m hm).1 hin
    have hcount : commas (messages.map fun m => (m.sq, m.msg)) = chunks.flatten.count ',' := by
      rw [commas_messages, hstream]
    exact eq_messageText hnul ((commas_le hnul h).2 hcount) hstream h
  · rintro rfl
    exact executedAll_messageText hlines

/-- Two puts of a primary. -/
def twoPuts : List MsgPair := [.of 1 "put u,f,x\r\n".toList, .of 2 "put u,g,y\r\n".toList]

theorem isCommand_twoPuts : ∀ m ∈ twoPuts, '\x00' ∉ m.msg ∧ IsCommand m.msg := by
  intro m hm
  rcases List.mem_cons.mp hm with rfl | hm
  · exact ⟨by decide, "put".toList, by decide, by decide⟩
  · rw [List.mem_singleton.mp hm]
    exact ⟨by decide, "put".toList, by decide, by decide⟩

theorem executedAll_iff_twoPuts :
    executedAll (twoPuts.map messageText) = .ok (twoPuts.map fun m => (m.sq, m.msg)) ↔
      twoPuts.map messageText = twoPuts.map messageText :=
  executedAll_iff isCommand_twoPuts List.flatMap_def.symm

/-- Both in one segment are executed as one. -/
theorem not_executedAll_joined : ∃ (messages : List MsgPair) (chunks : List Str),
    (∀ m ∈ messages, '\x00' ∉ m.msg ∧ IsCommand m.msg) ∧ chunks.flatten = messages.flatMap messageText ∧
      (∀ buffer ∈ chunks, buffer ≠ []) ∧
      executedAll chunks = .ok [(1, "put u,f,x\r\n2,put u,g,y\r\n".toList)] ∧
      executedAll chunks ≠ .ok (messages.map fun m => (m.sq, m.msg)) := by
  have hexecuted : executedAll [twoPuts.flatMap messageText] =
      .ok [(1, "put u,f,x\r\n2,put u,g,y\r\n".toList)] := by decide +kernel
  refine ⟨twoPuts, [twoPuts.flatMap messageText], isCommand_twoPuts, List.flatten_singleton, ?_, hexecuted, ?_⟩
  · intro buffer hbuffer
    rw [List.mem_singleton.mp hbuffer]
    decide +kernel
  · rw [hexecuted]
    exact fun heq => absurd (congrArg List.length (Except.ok.inj heq)) (by decide)

end PennCloud.Chunkserver
