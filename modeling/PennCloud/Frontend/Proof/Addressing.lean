import PennCloud.Frontend.Response
import PennCloud.Kv.Proof.Requests

/-!
# Which row a message is about

The frontend joins names and text with commas, and the storage cuts at the first of them. What it reads is what was
meant iff no name that stands in front of another field contains a comma.
-/

namespace PennCloud

/-- A command that neither changes nor reads the row of anybody but `user`. -/
structure Op.Within (op : Op) (user : Str) : Prop where
  change : ∀ (capacity : Int) (store : Store) (other : Str), other ≠ user → store.step capacity op other = store other
  read : ∀ (isPrimary : Bool) (store store' : Store), store user = store' user →
    Store.reply isPrimary store op = Store.reply isPrimary store' op

variable {op : Op} {user filename value last : Str}

theorem Op.within_user (op : Op) : op.Within op.user := by
  refine ⟨fun capacity store other hne => Store.step_of_ne hne.symm, fun isPrimary store store' hrow => ?_⟩
  cases op <;> simp only [Store.reply, Op.user] at hrow ⊢ <;> rw [hrow]

/-! ### No other row -/

theorem within_put {commFd seqNum : Int} (hwithin : (Op.put user filename value commFd seqNum).Within last) :
    user = last := by
  by_contra hne
  have hsame := hwithin.change (value.length + 1) Store.empty user hne
  have hroom : (LRUCache.total (Store.empty user) : Int) + value.length < value.length + 1 := by
    simp only [Store.empty, LRUCache.total, SortedMap.sum_empty]
    omega
  rw [Store.step, if_pos hroom, Function.update_self, Store.empty] at hsame
  have hmem : filename ∈ LRUCache.addFile ∅ (filename, value) := Std.ExtTreeMap.mem_insert_self
  rw [hsame] at hmem
  exact Std.ExtTreeMap.not_mem_empty hmem

/-- One user with one file that is empty. -/
def oneFile (user filename : Str) : Store := Function.update Store.empty user ((∅ : Map Str).insert filename [])

theorem within_get {commFd : Int} (hwithin : (Op.get user filename commFd).Within last) : user = last := by
  by_contra hne
  have hrow : Store.empty last = oneFile user filename last := (Function.update_of_ne (Ne.symm hne) _ _).symm
  have hsame := hwithin.read true _ _ hrow
  rw [Store.reply, Store.reply, Store.empty, oneFile, Function.update_self, Std.ExtTreeMap.getElem?_insert_self,
    Std.ExtTreeMap.getElem?_empty] at hsame
  exact absurd (congrArg List.length hsame) (by simp)

theorem within_dele {commFd seqNum : Int} {isMigration : Bool}
    (hwithin : (Op.dele user filename commFd seqNum isMigration).Within last) : user = last := by
  by_contra hne
  have hsame := hwithin.change 0 (oneFile user filename) user hne
  have hmem : filename ∈ oneFile user filename user := by
    rw [oneFile, Function.update_self]
    exact Std.ExtTreeMap.mem_insert_self
  rw [Store.step, Function.update_self] at hsame
  rw [← hsame, Std.ExtTreeMap.mem_erase] at hmem
  exact hmem.1 Std.ReflCmp.compare_self

namespace Frontend

open Chunkserver Site

/-! ### Fields of a line -/

/-- Only the last field can contain a comma. -/
theorem notMem_of_takeFields {n : Nat} {line last : Str} {fields : List Str}
    (hfields : takeFields n line = fields ++ [last]) : ∀ field ∈ fields, ',' ∉ field := by
  induction n generalizing line fields with
  | zero =>
      have hnil : [] = fields := (List.append_inj' (hfields.symm.trans (List.nil_append _).symm) rfl).1.symm
      rw [← hnil]
      exact fun field hfield => absurd hfield List.not_mem_nil
  | succ n ih =>
      rw [takeFields] at hfields
      split at hfields
      · have hnil : [] = fields := (List.append_inj' (hfields.symm.trans (List.nil_append _).symm) rfl).1.symm
        rw [← hnil]
        exact fun field hfield => absurd hfield List.not_mem_nil
      · next first rest hcut =>
          cases fields with
          | nil =>
              have hnone : takeFields n rest = [] := (List.cons.inj hfields).2
              cases n with
              | zero => cases hnone
              | succ n =>
                  rw [takeFields] at hnone
                  split at hnone <;> cases hnone
          | cons field fields =>
              obtain ⟨rfl, hrest⟩ := List.cons.inj hfields
              intro field' hfield'
              rcases List.mem_cons.mp hfield' with rfl | hlater
              · exact (Fields.cut_eq_some.mp hcut).2
              · exact ih hrest field' hlater

theorem bind_argumentsOf {β : Type} {line arguments : Str} {offset : Nat} {f : Str → Except Fault β} {b : β}
    (harguments : argumentsOf line offset = .ok arguments) (h : (argumentsOf line offset >>= f) = .ok b) :
    f arguments = .ok b := by
  rw [harguments] at h
  exact h

/-! ### Messages -/

/-- `"get " + username + "," + filename + "\r\n"` -/
def getFileMessage (username filename : Str) : Str := "get ".toList ++ username ++ ',' :: filename ++ "\r\n".toList

theorem append_named (command user name password ending : Str) :
    command ++ user ++ ((',' :: name ++ [',']) ++ password ++ ending) =
      command ++ user ++ ',' :: name ++ ',' :: password ++ ending := by
  simp only [List.append_assoc, List.cons_append, List.nil_append]

theorem addUserMessage_eq (user password : Str) :
    addUserMessage user password = putFileMessage user "pwd".toList password := by
  have hname : ",pwd,".toList = ',' :: "pwd".toList ++ [','] := by decide
  have hjoin : addUserMessage user password = _ :=
    congrArg (fun name => "put ".toList ++ user ++ (name ++ password ++ "\r\n".toList)) hname
  exact hjoin.trans (append_named ..)

section Lines

variable {op : PennCloud.Request}

theorem append_two (command user filename ending : Str) : command ++ user ++ ',' :: filename ++ ending =
    command ++ (user ++ ',' :: (filename ++ ending)) := by
  simp only [List.append_assoc, List.cons_append]

theorem append_three (command user filename value ending : Str) :
    command ++ user ++ ',' :: filename ++ ',' :: value ++ ending =
      command ++ (user ++ ',' :: (filename ++ ',' :: (value ++ ending))) := by
  simp only [List.append_assoc, List.cons_append]

theorem putFileMessage_eq (user filename value : Str) : putFileMessage user filename value =
    "put ".toList ++ (user ++ ',' :: (filename ++ ',' :: (value ++ "\r\n".toList))) := append_three ..

theorem getFileMessage_eq (user filename : Str) :
    getFileMessage user filename = "get ".toList ++ (user ++ ',' :: (filename ++ "\r\n".toList)) := append_two ..

theorem deleMessage_eq (user filename : Str) :
    deleMessage user filename = "dele ".toList ++ (user ++ ',' :: (filename ++ "\r\n".toList)) := append_two ..

theorem putRequest_fields (h : putRequest (putFileMessage user filename value) = .ok (some op)) :
    ∃ u f v, op = Op.put u f v ∧
      takeFields 2 (user ++ ',' :: (filename ++ ',' :: (value ++ "\r\n".toList))) = [u, f] ++ [v] := by
  rw [putFileMessage_eq, putRequest] at h
  have hfields := bind_argumentsOf (argumentsOf_append _ _) h
  split at hfields
  · next u f v hparse => exact ⟨u, f, v, (Option.some.inj (Except.ok.inj hfields)).symm, hparse⟩
  · exact absurd (Except.ok.inj hfields) (by simp)

theorem getRequest_fields (h : getRequest (getFileMessage user filename) = .ok (some op)) :
    ∃ u f, (op = fun commFd _ => Op.get u (chopTwo f) commFd) ∧
      takeFields 1 (user ++ ',' :: (filename ++ "\r\n".toList)) = [u] ++ [f] := by
  rw [getFileMessage_eq, getRequest] at h
  have hfields := bind_argumentsOf (argumentsOf_append _ _) h
  split at hfields
  · next u f hparse => exact ⟨u, f, (Option.some.inj (Except.ok.inj hfields)).symm, hparse⟩
  · exact absurd (Except.ok.inj hfields) (by simp)

theorem deleRequest_fields (h : deleRequest (deleMessage user filename) = .ok (some op)) :
    ∃ u f, (op = fun commFd seqNum => Op.dele u (chopTwo f) commFd seqNum false) ∧
      takeFields 1 (user ++ ',' :: (filename ++ "\r\n".toList)) = [u] ++ [f] := by
  rw [deleMessage_eq, deleRequest] at h
  have hfields := bind_argumentsOf (argumentsOf_append _ _) h
  split at hfields
  · next u f hparse => exact ⟨u, f, (Option.some.inj (Except.ok.inj hfields)).symm, hparse⟩
  · exact absurd (Except.ok.inj hfields) (by simp)

end Lines

/-! ### What is read is what was meant -/

/-- The three messages are read as commands on the file of the user. -/
structure ReadExactly (user filename value : Str) : Prop where
  put : putRequest (cstr (putFileMessage user filename value)) =
    .ok (some (Op.put user filename (value ++ "\r\n".toList)))
  get : getRequest (cstr (getFileMessage user filename)) = .ok (some fun commFd _ => Op.get user filename commFd)
  dele : deleRequest (cstr (deleMessage user filename)) =
    .ok (some fun commFd seqNum => Op.dele user filename commFd seqNum false)

/-- What a line is read as stays within the row of a user. -/
def StaysWithin (parsed : Except Fault (Option PennCloud.Request)) (user : Str) : Prop :=
  ∃ op, parsed = .ok (some op) ∧ ∀ commFd seqNum, (op commFd seqNum).Within user

theorem notMem_append_cons {front rest : Str} (hfront : '\x00' ∉ front) (hrest : '\x00' ∉ rest) :
    '\x00' ∉ front ++ ',' :: rest := by
  simp only [List.mem_append, List.mem_cons, not_or]
  exact ⟨hfront, by decide, hrest⟩

theorem notMem_append {front rest : Str} (hfront : '\x00' ∉ front) (hrest : '\x00' ∉ rest) :
    '\x00' ∉ front ++ rest :=
  fun hmem => (List.mem_append.mp hmem).elim hfront hrest

section NulFree

variable (huser : '\x00' ∉ user) (hfilename : '\x00' ∉ filename)

include huser hfilename

theorem cstr_putFileMessage (hvalue : '\x00' ∉ value) :
    cstr (putFileMessage user filename value) = putFileMessage user filename value := by
  have hvalue' : '\x00' ∉ value ++ "\r\n".toList := notMem_append hvalue (by decide)
  rw [putFileMessage_eq]
  exact cstr_of_notMem (notMem_append (by decide) (notMem_append_cons huser (notMem_append_cons hfilename hvalue')))

theorem cstr_getFileMessage : cstr (getFileMessage user filename) = getFileMessage user filename := by
  have hfilename' : '\x00' ∉ filename ++ "\r\n".toList := notMem_append hfilename (by decide)
  rw [getFileMessage_eq]
  exact cstr_of_notMem (notMem_append (by decide) (notMem_append_cons huser hfilename'))

theorem cstr_deleMessage : cstr (deleMessage user filename) = deleMessage user filename := by
  have hfilename' : '\x00' ∉ filename ++ "\r\n".toList := notMem_append hfilename (by decide)
  rw [deleMessage_eq]
  exact cstr_of_notMem (notMem_append (by decide) (notMem_append_cons huser hfilename'))

end NulFree

theorem deleRequest_append (huser : ',' ∉ user) (filename : Str) :
    deleRequest (deleMessage user filename) =
      .ok (some fun commFd seqNum => Op.dele user filename commFd seqNum false) := by
  have harguments : argumentsOf ("dele ".toList ++ (user ++ ',' :: (filename ++ "\r\n".toList))) 5 = _ :=
    argumentsOf_append _ _
  rw [deleMessage_eq, deleRequest, harguments, Run.ok_bind, parseLine_two huser]
  simp only [chopTwo_append]

/-- A comma in the file name moves the cut behind the name of the user, and not the name. -/
theorem putRequest_user (huser : ',' ∉ user) (filename value : Str) :
    ∃ f v, putRequest (putFileMessage user filename value) = .ok (some (Op.put user f v)) := by
  have hcut : ∃ f v, Fields.cut ',' (filename ++ ',' :: (value ++ "\r\n".toList)) = some (f, v) := by
    cases hcut : Fields.cut ',' (filename ++ ',' :: (value ++ "\r\n".toList)) with
    | none => exact absurd (List.mem_append_right filename List.mem_cons_self) (Fields.cut_eq_none.mp hcut)
    | some parts => exact ⟨parts.1, parts.2, rfl⟩
  obtain ⟨f, v, hcut⟩ := hcut
  obtain ⟨hsplit, hf⟩ := Fields.cut_eq_some.mp hcut
  refine ⟨f, v, ?_⟩
  rw [putFileMessage_eq, hsplit]
  exact putRequest_append huser hf v

theorem readExactly_iff (huser : '\x00' ∉ user) (hfilename : '\x00' ∉ filename) (hvalue : '\x00' ∉ value) :
    ReadExactly user filename value ↔ ',' ∉ user ∧ ',' ∉ filename := by
  constructor
  · rintro ⟨hput, _, _⟩
    rw [cstr_putFileMessage huser hfilename hvalue] at hput
    obtain ⟨u, f, v, hop, hfields⟩ := putRequest_fields hput
    obtain ⟨rfl, rfl, _⟩ := Op.put.inj (congrFun (congrFun hop 0) 0)
    have hfree := notMem_of_takeFields hfields
    exact ⟨hfree _ List.mem_cons_self, hfree _ (List.mem_cons_of_mem _ List.mem_cons_self)⟩
  · rintro ⟨hu, hf⟩
    refine ⟨?_, ?_, ?_⟩
    · rw [cstr_putFileMessage huser hfilename hvalue, putFileMessage_eq]
      exact putRequest_append hu hf _
    · rw [cstr_getFileMessage huser hfilename, getFileMessage_eq]
      exact getRequest_append hu filename
    · rw [cstr_deleMessage huser hfilename]
      exact deleRequest_append hu filename

theorem staysWithin_put_iff (huser : '\x00' ∉ user) (hfilename : '\x00' ∉ filename) (hvalue : '\x00' ∉ value) :
    StaysWithin (putRequest (cstr (putFileMessage user filename value))) user ↔ ',' ∉ user := by
  rw [cstr_putFileMessage huser hfilename hvalue]
  constructor
  · rintro ⟨op, hput, hwithin⟩
    obtain ⟨u, f, v, rfl, hfields⟩ := putRequest_fields hput
    rw [← within_put (hwithin 0 0)]
    exact notMem_of_takeFields hfields u List.mem_cons_self
  · intro hu
    obtain ⟨f, v, hput⟩ := putRequest_user hu filename value
    exact ⟨_, hput, fun commFd seqNum => (Op.put user f v commFd seqNum).within_user⟩

theorem staysWithin_get_iff (huser : '\x00' ∉ user) (hfilename : '\x00' ∉ filename) :
    StaysWithin (getRequest (cstr (getFileMessage user filename))) user ↔ ',' ∉ user := by
  rw [cstr_getFileMessage huser hfilename]
  constructor
  · rintro ⟨op, hget, hwithin⟩
    obtain ⟨u, f, rfl, hfields⟩ := getRequest_fields hget
    rw [← within_get (hwithin 0 0)]
    exact notMem_of_takeFields hfields u List.mem_cons_self
  · intro hu
    rw [getFileMessage_eq]
    exact ⟨_, getRequest_append hu filename, fun commFd _ => (Op.get user filename commFd).within_user⟩

theorem staysWithin_dele_iff (huser : '\x00' ∉ user) (hfilename : '\x00' ∉ filename) :
    StaysWithin (deleRequest (cstr (deleMessage user filename))) user ↔ ',' ∉ user := by
  rw [cstr_deleMessage huser hfilename]
  constructor
  · rintro ⟨op, hdele, hwithin⟩
    obtain ⟨u, f, rfl, hfields⟩ := deleRequest_fields hdele
    rw [← within_dele (hwithin 0 0)]
    exact notMem_of_takeFields hfields u List.mem_cons_self
  · intro hu
    exact ⟨_, deleRequest_append hu filename,
      fun commFd seqNum => (Op.dele user filename commFd seqNum false).within_user⟩

/-- The three messages stay within the row of the user. -/
structure StayWithin (user filename value : Str) : Prop where
  put : StaysWithin (putRequest (cstr (putFileMessage user filename value))) user
  get : StaysWithin (getRequest (cstr (getFileMessage user filename))) user
  dele : StaysWithin (deleRequest (cstr (deleMessage user filename))) user

/-- The messages are read exactly, and stay within the row of the user, iff neither name contains a comma. For the
row alone the name of the user decides. -/
theorem messages_exact_iff (huser : '\x00' ∉ user) (hfilename : '\x00' ∉ filename) (hvalue : '\x00' ∉ value) :
    (ReadExactly user filename value ∧ StayWithin user filename value ↔ ',' ∉ user ∧ ',' ∉ filename) ∧
      (StayWithin user filename value ↔ ',' ∉ user) := by
  have hexact := readExactly_iff huser hfilename hvalue
  have hwithin : StayWithin user filename value ↔ ',' ∉ user := by
    constructor
    · exact fun h => (staysWithin_put_iff huser hfilename hvalue).mp h.put
    · exact fun hu => ⟨(staysWithin_put_iff huser hfilename hvalue).mpr hu,
        (staysWithin_get_iff huser hfilename).mpr hu, (staysWithin_dele_iff huser hfilename).mpr hu⟩
  refine ⟨⟨fun h => hexact.mp h.1, fun h => ⟨hexact.mpr h, hwithin.mpr h.1⟩⟩, hwithin⟩

theorem messages_exact_iff_bob :
    (ReadExactly "bob".toList "a,b".toList "x".toList ∧ StayWithin "bob".toList "a,b".toList "x".toList ↔
        ',' ∉ "bob".toList ∧ ',' ∉ "a,b".toList) ∧
      (StayWithin "bob".toList "a,b".toList "x".toList ↔ ',' ∉ "bob".toList) :=
  messages_exact_iff (by decide) (by decide) (by decide)

/-- A registration form whose user name contains a comma. -/
def commaForm : Request :=
  ⟨"POST".toList, "/register".toList, "HTTP/1.1".toList, 33, ∅, "username=bob,notes&password=secret".toList⟩

/-- The registration of such a name writes a file of another user. -/
theorem not_messages_exact_comma :
    credentials commaForm = .ok ("bob,notes".toList, "secret".toList) ∧
      (∃ op, putRequest (cstr (addUserMessage "bob,notes".toList "secret".toList)) = .ok (some op) ∧
        op = Op.put "bob".toList "notes".toList "pwd,secret\r\n".toList) ∧
      ¬ ReadExactly "bob,notes".toList "pwd".toList "secret".toList ∧
      ¬ StayWithin "bob,notes".toList "pwd".toList "secret".toList := by
  have hcredentials : credentials commaForm = .ok ("bob,notes".toList, "secret".toList) := by decide +kernel
  have hmem : ',' ∈ "bob,notes".toList := by decide
  refine ⟨hcredentials, ⟨_, ?_, rfl⟩, fun hexact => ?_, fun hwithin => ?_⟩
  · rw [show cstr (addUserMessage "bob,notes".toList "secret".toList) =
        "put ".toList ++ ("bob".toList ++ ',' :: ("notes".toList ++ ',' :: "pwd,secret\r\n".toList)) by decide]
    exact putRequest_append (by decide) (by decide) _
  · exact ((readExactly_iff (by decide) (by decide) (by decide)).mp hexact).1 hmem
  · exact (staysWithin_get_iff (by decide) (by decide)).mp hwithin.get hmem

end Frontend

end PennCloud
