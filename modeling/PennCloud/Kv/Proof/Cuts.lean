import PennCloud.Kv.Proof.Requests

/-!
# Lines that are cut

Every handler copies its arguments from a fixed place of the line, and a command is long enough for that. Three of them cut
two bytes from a field that may be shorter, `done` converts what may not be a number, and the line itself may have one byte.
-/

namespace PennCloud

variable {s : LRUCache} {user filename line text word : Str} {fault : Fault} {fuel n : Nat} {commFd : Int}

/-- The faults of a slice, an index or a number conversion. -/
def IsCut (fault : Fault) : Prop := fault = .badLength ∨ fault = .outOfRange ∨ fault = .badNumber

theorem ok_ne {α : Type} (a : α) (fault : Fault) : (.ok a : Except Fault α) ≠ .error fault := fun h => by cases h

theorem IsCut.deref_ne {α : Type} (hcut : IsCut fault) (pointer : Option α) : deref pointer ≠ .error fault := by
  rintro h
  cases pointer with
  | none =>
      obtain rfl : .nullDeref = fault := Except.error.inj h
      rcases hcut with h | h | h <;> cases h
  | some a => cases h

/-! ### A store that is empty -/

namespace LRUCache

/-- Nothing has been stored yet. -/
structure Vacant (s : LRUCache) : Prop where
  tablets : s.tablets = ∅
  virmemMeta : s.virmemMeta = ∅
  memoryUsed : s.memoryUsed = 0

theorem Vacant.getHelper_eq (h : s.Vacant) : s.getHelper fuel user filename commFd =
    .ok (none, s.servermsg "-ERR User not exist\r\n" commFd) := by
  rw [getHelper, h.tablets, h.virmemMeta]
  simp

theorem moveToTail_ne (hcut : IsCut fault) (r : Ref) : s.moveToTail r ≠ .error fault :=
  Run.bind_ne_error (hcut.deref_ne _) fun _ _ => ok_ne _ _

theorem Vacant.placeValue_ne (h : s.Vacant) (hcut : IsCut fault) (load : LRUCache → Str → Except Fault LRUCache) (value : Str)
    (isCPUT : Bool) : s.placeValue load user filename value isCPUT ≠ .error fault := by
  rw [placeValue, h.tablets, h.virmemMeta]
  simp only [Std.ExtTreeMap.contains_empty, Bool.not_false, Bool.not_true, Bool.and_self, if_true]
  refine Run.bind_ne_error (moveToTail_ne hcut _) fun t _ => ?_
  exact ok_ne _ _

theorem Vacant.fits (h : s.Vacant) {value : Str} (hlength : value.length ≤ toSize s.capacity) : s.fits value = true := by
  rw [LRUCache.fits, h.memoryUsed]
  have hsum : sizeAdd 0 value.length ≤ value.length := by
    rw [sizeAdd, toSize]
    exact (Nat.mod_le _ _).trans (Nat.zero_add _).le
  exact decide_eq_true (hsum.trans hlength)

theorem Vacant.touchUserSize (h : s.Vacant) (user : Str) : (s.touchUserSize user).Vacant := ⟨h.tablets, h.virmemMeta, h.memoryUsed⟩

theorem Vacant.put_ne (h : s.Vacant) (hcut : IsCut fault) (value : Str) (seqNum : Int) :
    s.put fuel user filename value commFd true seqNum ≠ .error fault := by
  rw [put, putWith]
  split
  · exact ok_ne _ _
  · next hlength =>
      cases fuel with
      | zero =>
          intro hfault
          obtain rfl : .outOfFuel = fault := Except.error.inj hfault
          rcases hcut with h | h | h <;> cases h
      | succ fuel =>
          have hfits : (s.touchUserSize user).fits value = true := (h.touchUserSize user).fits (Nat.le_of_not_lt hlength)
          rw [putLoop]
          dsimp only
          rw [putHelper]
          simp only [Bool.true_or, Bool.true_and, if_true, hfits]
          split
          · exact ok_ne _ _
          · rw [bind_assoc]
            exact Run.bind_ne_error ((h.touchUserSize user).placeValue_ne hcut _ _ _) fun t _ => ok_ne _ _

theorem Vacant.exec_ne (h : s.Vacant) (hcut : IsCut fault) (op : Op) : s.exec fuel op ≠ .error fault := by
  cases op with
  | put user filename value commFd seqNum => exact h.put_ne hcut value seqNum
  | get user filename commFd =>
      rw [exec, get, h.getHelper_eq]
      exact ok_ne _ _
  | cput user filename oldValue newValue commFd seqNum =>
      rw [exec, cput, h.getHelper_eq]
      exact ok_ne _ _
  | dele user filename commFd seqNum isMigration =>
      rw [exec, dele, h.getHelper_eq]
      exact ok_ne _ _
  | rename user oldFilename newFilename commFd seqNum =>
      rw [exec, rename, h.getHelper_eq]
      exact ok_ne _ _

theorem Vacant.listFiles_eq (h : s.Vacant) (wanted : Str → Bool) (entry : Str → Str → Str) :
    s.listFiles fuel user commFd wanted entry = .ok (s.servermsg "-ERR User not exist\r\n" commFd) := by
  rw [listFiles, h.tablets]
  simp

end LRUCache

/-! ### The handlers -/

namespace Chunkserver

variable {s : Chunkserver} {seqNum : Int} {external : Bool}

theorem sendToSecondary_ne (hcut : IsCut fault) (line user : Str) : s.sendToSecondary line user ≠ .error fault := by
  rw [sendToSecondary]
  dsimp only
  split
  · intro hfault
    obtain rfl : .intOverflow = fault := Except.error.inj hfault
    rcases hcut with h | h | h <;> cases h
  · exact ok_ne _ _

theorem perform_ne (h : s.lru.Vacant) (hcut : IsCut fault) (op : Op) :
    s.perform fuel line user external op ≠ .error fault := by
  refine Run.bind_ne_error (h.exec_ne hcut op) fun lru _ => ?_
  dsimp only
  split
  · split
    · exact sendToSecondary_ne hcut _ _
    · exact ok_ne _ _
  · exact ok_ne _ _

theorem obey_ne (h : s.lru.Vacant) (hcut : IsCut fault) (parsed : Option Request) :
    s.obey fuel line external commFd seqNum parsed ≠ .error fault := by
  cases parsed with
  | none => exact ok_ne _ _
  | some request => exact perform_ne h hcut _

theorem argumentsOf_ok {offset : Nat} (h : offset ≤ line.length) : argumentsOf line offset = .ok (line.drop offset) := by
  rw [argumentsOf, if_neg (Nat.not_lt.mpr h)]

theorem putRequest_ok (h : 4 ≤ line.length) : ∃ parsed, putRequest line = .ok parsed := by
  rw [putRequest, argumentsOf_ok h, Run.ok_bind]
  split <;> exact ⟨_, rfl⟩

theorem cputRequest_ok (h : 5 ≤ line.length) : ∃ parsed, cputRequest line = .ok parsed := by
  rw [cputRequest, argumentsOf_ok h, Run.ok_bind]
  split <;> exact ⟨_, rfl⟩

theorem deleRequest_ok (h : 5 ≤ line.length) : ∃ parsed, deleRequest line = .ok parsed := by
  rw [deleRequest, argumentsOf_ok h, Run.ok_bind]
  split <;> exact ⟨_, rfl⟩

theorem renameRequest_ok (h : 7 ≤ line.length) : ∃ parsed, renameRequest line = .ok parsed := by
  rw [renameRequest, argumentsOf_ok h, Run.ok_bind]
  split <;> exact ⟨_, rfl⟩

theorem getRequest_ok (h : 4 ≤ line.length) : ∃ parsed, getRequest line = .ok parsed := by
  rw [getRequest, argumentsOf_ok h, Run.ok_bind]
  split <;> exact ⟨_, rfl⟩

theorem writeRequest_ok {parsed : Except Fault (Option Request)} (hparsed : writeRequest word line = some parsed)
    (hlength : word.length + 1 ≤ line.length) : ∃ request, parsed = .ok request := by
  rw [writeRequest] at hparsed
  split at hparsed
  · next hword =>
      obtain rfl := Option.some.inj hparsed
      subst hword
      exact putRequest_ok hlength
  · split at hparsed
    · next hword =>
        obtain rfl := Option.some.inj hparsed
        subst hword
        exact cputRequest_ok hlength
    · split at hparsed
      · next hword =>
          obtain rfl := Option.some.inj hparsed
          subst hword
          exact deleRequest_ok hlength
      · split at hparsed
        · next hword =>
            obtain rfl := Option.some.inj hparsed
            subst hword
            exact renameRequest_ok hlength
        · cases hparsed

theorem getlist_ne (h : s.lru.Vacant) (hlength : 8 ≤ line.length) : s.getlist fuel line commFd ≠ .error fault := by
  rw [getlist, argumentsOf_ok hlength, Run.ok_bind]
  split
  · rw [LRUCache.getlist, h.listFiles_eq]
    exact ok_ne _ _
  · exact ok_ne _ _

theorem getfile_ne (h : s.lru.Vacant) : s.getfile fuel line commFd ≠ .error fault := by
  rw [getfile]
  split
  · next hlength =>
      rw [substr, if_neg (by omega), Run.ok_bind, LRUCache.getfile, h.listFiles_eq]
      exact ok_ne _ _
  · exact ok_ne _ _

theorem dataMigration_ne (h : s.lru.Vacant) (hcut : IsCut fault) (hlength : 8 ≤ line.length) :
    s.dataMigration fuel line commFd ≠ .error fault := by
  rw [dataMigration, substr, if_neg (Nat.not_lt.mpr hlength), Run.ok_bind]
  refine Run.bind_ne_error ?_ fun _ _ => ok_ne _ _
  cases Fields.pieces ',' ((line.drop 8).take (line.length - 8)) with
  | nil => exact ok_ne _ _
  | cons user users =>
      have hnull : s.migrateData fuel user commFd = .error .nullDeref := by
        rw [migrateData, h.tablets, Std.ExtTreeMap.getElem?_empty]
        rfl
      rw [List.foldlM_cons, hnull]
      exact hcut.deref_ne (none : Option Chunkserver)

/-- The number of a report stands behind the last comma. -/
def reported (line : Str) : Str := Fields.remainder ',' (line.drop 5)

theorem handleSecondaryReport_eq (hlength : 5 ≤ line.length) : ∃ f : Int → Chunkserver,
    s.handleSecondaryReport line = stoi (reported line) >>= fun n => .ok (f n) := by
  rw [handleSecondaryReport, substr, if_neg (Nat.not_lt.mpr hlength), Run.ok_bind, ← List.length_drop, List.take_length]
  exact ⟨_, rfl⟩

/-! ### One message -/

/-- The word that `worker` dispatches on: what stands in front of the first blank, or the line without its last two bytes. -/
def commandWord (line : Str) : Str :=
  let idx := line.findIdx (· == ' ')
  (if 0 < idx ∧ idx < line.length then line.take idx else line.take (line.length - 2)).map Char.toLower

theorem parseCommand_eq (hlength : 2 ≤ line.length) : parseCommand line = .ok (commandWord line) := by
  rw [parseCommand, commandWord]
  split
  · rfl
  · rw [if_neg (Nat.not_lt.mpr hlength)]

theorem parseCommand_short (hlength : line.length < 2) : parseCommand line = .error .badLength := by
  rw [parseCommand]
  rw [if_neg (by omega), if_pos hlength]

theorem length_commandWord (hlength : 2 ≤ line.length) : (commandWord line).length + 1 ≤ line.length := by
  rw [commandWord, List.length_map]
  split
  · next hidx =>
      rw [List.length_take]
      omega
  · rw [List.length_take]
    omega

theorem answerGet_ne (h : s.lru.Vacant) (hcut : IsCut fault) (parsed : Option Request) :
    s.answerGet fuel commFd parsed ≠ .error fault := by
  cases parsed with
  | none => exact ok_ne _ _
  | some request => exact Run.bind_ne_error (h.exec_ne hcut _) fun _ _ => ok_ne _ _

theorem worker_ne (h : s.lru.Vacant) (hcut : IsCut fault) (hlength : 2 ≤ (cstr text).length)
    (hreport : commandWord (cstr text) = "done".toList → ∃ n, stoi (reported (cstr text)) = .ok n) :
    s.worker fuel commFd text ≠ .error fault := by
  have hword := length_commandWord hlength
  rw [worker]
  split
  · exact ok_ne _ _
  · split
    · intro hfault
      obtain rfl : .exited = fault := Except.error.inj hfault
      rcases hcut with h | h | h <;> cases h
    · rw [parseCommand_eq hlength, Run.ok_bind, writeCommand_eq]
      generalize commandWord (cstr text) = word at hreport hword
      cases hparsed : writeRequest word (cstr text) with
      | some parsed =>
          obtain ⟨request, rfl⟩ := writeRequest_ok hparsed hword
          exact Run.bind_ne_error (obey_ne h hcut request) fun _ _ => ok_ne _ _
      | none =>
          change (if _ then _ else _) ≠ _
          split
          · next hget =>
              subst hget
              obtain ⟨parsed, hparsed⟩ := getRequest_ok hword
              rw [get_eq, hparsed, Run.ok_bind]
              exact Run.bind_ne_error (answerGet_ne h hcut parsed) fun _ _ => ok_ne _ _
          · split
            · next hgetlist =>
                subst hgetlist
                exact Run.bind_ne_error (getlist_ne h hword) fun _ _ => ok_ne _ _
            · split
              · exact Run.bind_ne_error (getfile_ne h) fun _ _ => ok_ne _ _
              · split
                · next hdone =>
                    subst hdone
                    obtain ⟨f, hf⟩ := handleSecondaryReport_eq (s := s) hword
                    obtain ⟨n, hn⟩ := hreport rfl
                    rw [hf, hn]
                    exact ok_ne _ _
                · split
                  · next hrequest =>
                      subst hrequest
                      exact dataMigration_ne h hcut hword
                  · split
                    · exact ok_ne _ _
                    · exact ok_ne _ _

/-! ### Two bytes behind a comma -/

/-- The last of the arguments, if there are that many. -/
def lastField (line : Str) (offset n : Nat) : List Str :=
  match argumentsOf line offset with
  | .ok arguments => if (parseLine arguments n).length = n then [(parseLine arguments n).getLastD []] else []
  | .error _ => []

/-- A handler that takes the last of its arguments without two bytes: where the arguments start, and the commas between them. -/
structure Chop where
  command : String
  offset : Nat
  commas : Nat

def chops : List Chop := [⟨"get", 4, 1⟩, ⟨"dele", 5, 1⟩, ⟨"getlist", 8, 1⟩, ⟨"rename", 7, 2⟩]

/-- The strings that the handler of a line takes without their last two bytes. -/
def chopped (line : Str) : List Str :=
  match parseCommand line with
  | .ok command =>
      (chops.filter fun chop => chop.command.toList = command).flatMap fun chop => lastField line chop.offset (chop.commas + 1)
  | .error _ => []

/-- Two bytes or more stand behind this comma, if there are that many. -/
def RoomBehind : Nat → Str → Prop
  | 0, text => 2 ≤ text.length
  | n + 1, text => ∀ front back, text = front ++ ',' :: back → ',' ∉ front → RoomBehind n back

theorem getLastD_takeFields (field : Str) (n : Nat) (text : Str) :
    (field :: takeFields n text).getLastD [] = (takeFields n text).getLastD [] := by
  cases hfields : takeFields n text with
  | nil =>
      cases n with
      | zero => cases hfields
      | succ n =>
          rw [takeFields] at hfields
          split at hfields <;> cases hfields
  | cons first rest => rfl

theorem room_takeFields (n : Nat) (text : Str) :
    ((takeFields n text).length = n + 1 → 2 ≤ ((takeFields n text).getLastD []).length) ↔ RoomBehind n text := by
  induction n generalizing text with
  | zero => exact ⟨fun h => h rfl, fun h _ => h⟩
  | succ n ih =>
      rw [takeFields]
      cases hcut : Fields.cut ',' text with
      | none =>
          have hcomma := Fields.cut_eq_none.mp hcut
          refine iff_of_true (fun hlength => ?_) fun front back htext _ => ?_
          · exact absurd hlength (by simp)
          · exact absurd (htext ▸ List.mem_append_right front List.mem_cons_self) hcomma
      | some cut =>
          obtain ⟨field, rest⟩ := cut
          obtain ⟨rfl, hfield⟩ := Fields.cut_eq_some.mp hcut
          dsimp only
          rw [getLastD_takeFields, List.length_cons, Nat.add_right_cancel_iff, ih]
          constructor
          · intro hroom front back htext hfront
            have hsame := hcut.symm.trans (htext ▸ Fields.cut_append hfront)
            exact (Prod.mk.inj (Option.some.inj hsame)).2 ▸ hroom
          · exact fun hroom => hroom field rest rfl hfield

theorem room_lastField {offset : Nat} (hlength : offset ≤ line.length) (n : Nat) :
    (∀ field ∈ lastField line offset (n + 1), 2 ≤ field.length) ↔ RoomBehind n (line.drop offset) := by
  rw [lastField, argumentsOf_ok hlength, ← room_takeFields]
  dsimp only
  rw [parseLine, Nat.add_sub_cancel]
  by_cases hfields : (takeFields n (line.drop offset)).length = n + 1
  · rw [if_pos hfields, List.forall_mem_singleton]
    exact ⟨fun h _ => h, fun h => h hfields⟩
  · rw [if_neg hfields]
    exact iff_of_true (fun field hfield => absurd hfield List.not_mem_nil) fun h => absurd h hfields

/-! ### All lines -/

/-- A line that every handler cuts within its bounds: two bytes, two more behind the last comma that a field follows, and a
number in a report. -/
structure Clear (line : Str) : Prop where
  length : 2 ≤ line.length
  room : ∀ chop ∈ chops, commandWord line = chop.command.toList → RoomBehind chop.commas (line.drop chop.offset)
  done : commandWord line = "done".toList → ∃ n, stoi (reported line) = .ok n

theorem chopped_iff (hlength : 2 ≤ line.length) : (∀ field ∈ chopped line, 2 ≤ field.length) ↔
    ∀ chop ∈ chops, commandWord line = chop.command.toList → RoomBehind chop.commas (line.drop chop.offset) := by
  have hoffset : ∀ chop ∈ chops, chop.offset = chop.command.toList.length + 1 := by decide
  have hword := length_commandWord hlength
  have hroom {chop : Chop} (hchop : chop ∈ chops) (hcommand : commandWord line = chop.command.toList) :
      (∀ field ∈ lastField line chop.offset (chop.commas + 1), 2 ≤ field.length) ↔
        RoomBehind chop.commas (line.drop chop.offset) := by
    refine room_lastField ?_ chop.commas
    rw [hoffset chop hchop, ← hcommand]
    exact hword
  rw [chopped, parseCommand_eq hlength]
  constructor
  · intro hfields chop hchop hcommand
    refine (hroom hchop hcommand).mp fun field hfield => hfields field (List.mem_flatMap.mpr ⟨chop, ?_, hfield⟩)
    exact List.mem_filter.mpr ⟨hchop, decide_eq_true hcommand.symm⟩
  · intro hclear field hfield
    obtain ⟨chop, hchop, hfield⟩ := List.mem_flatMap.mp hfield
    obtain ⟨hchop, hcommand⟩ := List.mem_filter.mp hchop
    have hcommand := (of_decide_eq_true hcommand).symm
    exact (hroom hchop hcommand).mpr (hclear chop hchop hcommand) field hfield

/-- A line of one byte is cut below zero. -/
theorem worker_short (s : Chunkserver) (fuel : Nat) (commFd : Int) (hlength : (cstr text).length < 2) :
    s.worker fuel commFd text = .error .badLength := by
  have hgreeting : cstr text ≠ "S\r\n".toList ∧ cstr text ≠ "shutdown\r\n".toList := by
    constructor
    · rintro heq
      rw [heq] at hlength
      exact absurd hlength (by decide)
    · rintro heq
      rw [heq] at hlength
      exact absurd hlength (by decide)
  rw [worker, if_neg hgreeting.1, if_neg hgreeting.2, parseCommand_short hlength]
  rfl

theorem worker_done (s : Chunkserver) (fuel : Nat) (commFd : Int) (hlength : 2 ≤ (cstr text).length)
    (hdone : commandWord (cstr text) = "done".toList) : s.worker fuel commFd text = s.handleSecondaryReport (cstr text) := by
  have hcommand := parseCommand_eq hlength
  rw [hdone] at hcommand
  obtain ⟨hgreeting, hshutdown⟩ := not_greeting hcommand (by decide) (by decide)
  have hnone : s.writeCommand fuel "done".toList (cstr text) commFd 0 = none := by
    rw [writeCommand_eq]
    rfl
  rw [worker]
  simp only [if_neg hgreeting, if_neg hshutdown, hcommand, Run.ok_bind, hnone]
  rfl

theorem stoi_error (h : stoi text = .error fault) : fault = .badNumber := by
  rw [stoi] at h
  split at h
  · exact (Except.error.inj h).symm
  · split at h
    · cases h
    · exact (Except.error.inj h).symm

/-- What a client sends to a node without files is cut within its bounds iff its line is clear. -/
theorem worker_clear_iff (h : s.lru.Vacant) (hnul : '\x00' ∉ text) (commFd : Int) :
    ((∀ fuel fault, s.worker fuel commFd text = .error fault → ¬ IsCut fault) ∧ ∀ field ∈ chopped text, 2 ≤ field.length) ↔
      Clear text := by
  have hcstr := cstr_of_notMem hnul
  constructor
  · rintro ⟨hfault, hchopped⟩
    have hlength : 2 ≤ text.length := by
      by_contra hshort
      have hrun := worker_short s 0 commFd (hcstr.symm ▸ Nat.lt_of_not_le hshort)
      exact hfault 0 _ hrun (Or.inl rfl)
    refine ⟨hlength, (chopped_iff hlength).mp hchopped, fun hdone => ?_⟩
    have hword := length_commandWord hlength
    rw [hdone] at hword
    obtain ⟨f, hf⟩ := handleSecondaryReport_eq (s := s) hword
    have hrun := worker_done s 0 commFd (hcstr.symm ▸ hlength) (hcstr.symm ▸ hdone)
    rw [hcstr, hf] at hrun
    cases hnumber : stoi (reported text) with
    | ok n => exact ⟨n, rfl⟩
    | error fault =>
        rw [hnumber] at hrun
        exact absurd (Or.inr (Or.inr (stoi_error hnumber))) (hfault 0 fault hrun)
  · intro hclear
    refine ⟨fun fuel fault hrun hcut => ?_, (chopped_iff hclear.length).mpr hclear.room⟩
    exact worker_ne h hcut (hcstr.symm ▸ hclear.length) (hcstr.symm ▸ hclear.done) hrun

theorem vacant_fresh (capacity : Int) (isPrimary : Bool) (secondaryFd : Int) : (fresh capacity isPrimary secondaryFd).lru.Vacant :=
  ⟨rfl, rfl, rfl⟩

/-- A command without its arguments. -/
theorem worker_clear_iff_get :
    ((∀ fuel fault, (fresh 1000 true 5).worker fuel 7 "get u,f\r\n".toList = .error fault → ¬ IsCut fault) ∧
      ∀ field ∈ chopped "get u,f\r\n".toList, 2 ≤ field.length) ↔ Clear "get u,f\r\n".toList :=
  worker_clear_iff (vacant_fresh 1000 true 5) (by decide) 7

/-- A report without a number ends the process. -/
theorem not_worker_clear_done : (fresh 1000 true 5).lru.Vacant ∧
    ¬ ∀ fuel fault, (fresh 1000 true 5).worker fuel 7 "done\r\n".toList = .error fault → ¬ IsCut fault := by
  refine ⟨vacant_fresh 1000 true 5, fun hall => ?_⟩
  have hends : ((fresh 1000 true 5).worker 9 7 "done\r\n".toList).map (fun _ => ()) = .error .badNumber := by decide +kernel
  cases hrun : (fresh 1000 true 5).worker 9 7 "done\r\n".toList with
  | ok t =>
      rw [hrun] at hends
      cases hends
  | error fault =>
      rw [hrun] at hends
      cases hends
      exact hall 9 _ hrun (Or.inr (Or.inr rfl))

end Chunkserver

end PennCloud
