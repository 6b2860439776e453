import PennCloud.Frontend.Proof.Addressing
import PennCloud.Frontend.Proof.Endings
import PennCloud.Frontend.Proof.Forms
import PennCloud.Frontend.Proof.Login
import PennCloud.Kv.Proof.Newcomers

/-!
# One name, one password

A request to register asks the node for a password first and stores one when there is none. The two messages of
one request go over connections of their own, and those of other requests may come between them. A name is taken
once as long as no request asks while another is about to store.
-/

namespace PennCloud

open LRUCache Frontend Frontend.Site

variable {user password line rest message : Str} {rep : List Str} {fuel : Nat} {commFd : Int}

/-! ### The two messages -/

theorem readRep_first (hline : '\r' ∉ line) (hdone : line ≠ done) (hending : line ≠ endingOf message)
    (hrun : readRep fuel message (line ++ '\r' :: '\n' :: rest) = .ok rep) : ∃ later, rep = line :: later := by
  have hread : readRep fuel message (line ++ '\r' :: '\n' :: rest) =
      if (readRepLine [] (line ++ '\r' :: '\n' :: rest)).1 = done then .ok []
      else if (readRepLine [] (line ++ '\r' :: '\n' :: rest)).1 = endingOf message then .ok []
      else repLines fuel (endingOf message) (readRepLine [] (line ++ '\r' :: '\n' :: rest)).2 >>=
        fun rep => .ok ((readRepLine [] (line ++ '\r' :: '\n' :: rest)).1 :: rep) := rfl
  rw [hread, readRepLine_append hline, List.nil_append] at hrun
  dsimp only at hrun
  rw [if_neg hdone, if_neg hending] at hrun
  obtain ⟨later, _, hrun⟩ := Run.bind_eq_ok.mp hrun
  exact ⟨later, (Except.ok.inj hrun).symm⟩

namespace Chunkserver

variable {s t : Chunkserver} {files : Map Str} {exist : Bool}

theorem worker_getPwdMessage (huser : ',' ∉ user) (hnul : '\x00' ∉ user) :
    s.worker fuel commFd (cstr (getPwdMessage user)) =
      s.lru.get fuel user "pwd".toList commFd >>= fun lru => .ok (({ s with lru := lru } : Chunkserver).sendDone commFd) := by
  obtain ⟨hcstr, hcommand, hrequest⟩ := asksGet_getPwdMessage huser hnul
  rw [worker_get (by rw [hcstr, hcstr]; exact hcommand), hcstr, hcstr, hrequest, Run.ok_bind]
  change ((s.lru.get fuel user "pwd".toList commFd >>= _) >>= _) = _
  rw [bind_assoc]
  rfl

theorem worker_getPwd_newcomer (huser : ',' ∉ user) (hnul : '\x00' ∉ user) (hwired : s.lru.Wired)
    (hnew : s.lru.Newcomer user) (hrun : s.worker fuel commFd (cstr (getPwdMessage user)) = .ok t) :
    t.lru.Wired ∧ t.lru.Newcomer user ∧ repliesOn commFd s t = "-ERR User not exist\r\n".toList ++ doneLine := by
  have hget : s.lru.get fuel user "pwd".toList commFd = .ok (s.lru.servermsg "-ERR User not exist\r\n" commFd) := by
    rw [LRUCache.get, getHelper_of_unknown (hnew.absent hwired) hnew.unrecorded]
    rfl
  rw [worker_getPwdMessage huser hnul, hget] at hrun
  obtain rfl := Except.ok.inj hrun
  refine ⟨closed_wired.sent hwired _, hnew.congr rfl rfl rfl, ?_⟩
  have hsent : ({ s with lru := s.lru.servermsg "-ERR User not exist\r\n" commFd } : Chunkserver).lru.sent =
      s.lru.sent ++ ["-ERR User not exist\r\n".toList].map (Prod.mk commFd) := rfl
  exact reply_texts hsent

theorem worker_getPwd_resides (huser : ',' ∉ user) (hnul : '\x00' ∉ user) (hwired : s.lru.Wired)
    (hresides : s.lru.Resides user files) (hpwd : files["pwd".toList]? = some password) :
    ∃ t, s.worker fuel commFd (cstr (getPwdMessage user)) = .ok t ∧ t.lru.Wired ∧ t.lru.Resides user files ∧
      repliesOn commFd s t = "+OK value as follows: \r\n".toList ++ password ++ doneLine := by
  obtain ⟨⟨found, lru⟩, hget⟩ := hresides.getHelper_returns hwired fuel "pwd".toList commFd
  obtain ⟨rfl, hkept⟩ := hresides.getHelper_ok hwired hget
  have hsent : lru.sent = s.lru.sent := by
    obtain ⟨r, hresident, hvalue⟩ := hresides
    exact (getHelper_of_file hwired hresident (by rw [hvalue, hpwd]) hget).2
  rw [hpwd] at hget
  refine ⟨({ s with lru := (lru.servermsg "+OK value as follows: \r\n" commFd).send commFd password } :
    Chunkserver).sendDone commFd, ?_, closed_wired.sent (closed_wired.getHelper hwired hget) _, hkept.congr rfl rfl, ?_⟩
  · rw [worker_getPwdMessage huser hnul, LRUCache.get, hget]
    rfl
  · have htexts : ({ s with lru := (lru.servermsg "+OK value as follows: \r\n" commFd).send commFd password } :
        Chunkserver).lru.sent =
          s.lru.sent ++ ["+OK value as follows: \r\n".toList, password].map (Prod.mk commFd) := by
      change lru.sent ++ [(commFd, "+OK value as follows: \r\n".toList)] ++ [(commFd, password)] = _
      rw [hsent, List.append_assoc]
      rfl
    rw [reply_texts htexts, List.flatten_cons, List.flatten_singleton]

theorem exec_of_putMessage {filename value message : Str} (huser : ',' ∉ user) (hfilename : ',' ∉ filename)
    (hmessage : cstr message = "put ".toList ++ (user ++ ',' :: (filename ++ ',' :: value)))
    (hrun : s.worker fuel commFd (cstr message) = .ok t) :
    ∃ lru, s.lru.exec fuel (.put user filename value commFd 0) = .ok lru ∧ t.lru.heap = lru.heap ∧
      t.lru.nodes = lru.nodes ∧ t.lru.tablets = lru.tablets ∧ t.lru.virmemMeta = lru.virmemMeta := by
  have hcstr : cstr (cstr message) = "put ".toList ++ (user ++ ',' :: (filename ++ ',' :: value)) := by
    rw [cstr_of_notMem (notMem_cstr message), hmessage]
  have hcommand : parseCommand (cstr (cstr message)) = .ok "put".toList := by
    rw [hcstr]
    exact parseCommand_append "put".toList (by decide) (by decide) _
  have hwrite : writeRequest "put".toList (cstr (cstr message)) = some (.ok (some (.put user filename value))) := by
    rw [hcstr, ← putRequest_append huser hfilename]
    rfl
  exact worker_exec hcommand hwrite hrun

theorem worker_addUserMessage (huser : ',' ∉ user) (hnul : '\x00' ∉ user) (hpassword : '\x00' ∉ password)
    (hwired : s.lru.Wired) (hnew : s.lru.Newcomer user) (htaken : ¬ s.lru.Refused user (password ++ "\r\n".toList))
    (hrun : s.worker fuel commFd (cstr (addUserMessage user password)) = .ok t) :
    t.lru.Wired ∧ t.lru.Resides user ((∅ : Map Str).insert "pwd".toList (password ++ "\r\n".toList)) := by
  have hmessage : cstr (addUserMessage user password) =
      "put ".toList ++ (user ++ ',' :: ("pwd".toList ++ ',' :: (password ++ "\r\n".toList))) := by
    rw [addUserMessage_eq, cstr_putFileMessage hnul (by decide) hpassword, putFileMessage_eq]
  obtain ⟨lru, hexec, hheap, hnodes, htablets, hvirmem⟩ := exec_of_putMessage huser (by decide) hmessage hrun
  refine ⟨?_, (hnew.put hwired htaken hexec).1.congr hheap htablets⟩
  exact (closed_wired.exec hwired hexec).congr hheap hnodes htablets fun u hu => hvirmem ▸ hu

/-! ### Asking and storing -/

theorem isUserExist_eq {t' : Chunkserver} (hworker : s.worker fuel commFd (cstr (getPwdMessage user)) = .ok t')
    (hreply : repliesOn commFd s t' = line ++ "\r\n".toList ++ rest) (hline : '\r' ∉ line) (hdone : line ≠ done)
    (hrun : s.isUserExist fuel commFd user = .ok (exist, t)) : exist = decide (line.take 3 = "+OK".toList) ∧ t = t' := by
  have hending : line ≠ endingOf (getPwdMessage user) := by
    rw [endingOf, if_neg (getPwdMessage_take user)]
    exact hdone
  obtain ⟨⟨rep, t₁⟩, hsend, hrun⟩ := Run.bind_eq_ok.mp hrun
  obtain ⟨t₂, hworker', hsend⟩ := Run.bind_eq_ok.mp hsend
  obtain rfl := Except.ok.inj (hworker.symm.trans hworker')
  obtain ⟨rep', hread, hsend⟩ := Run.bind_eq_ok.mp hsend
  obtain ⟨rfl, rfl⟩ := Prod.mk.inj (Except.ok.inj hsend)
  rw [hreply, List.append_assoc] at hread
  obtain ⟨later, rfl⟩ := readRep_first hline hdone hending hread
  obtain ⟨rfl, rfl⟩ := Prod.mk.inj (Except.ok.inj hrun)
  exact ⟨rfl, rfl⟩

theorem exists_worker (hrun : s.isUserExist fuel commFd user = .ok (exist, t)) :
    ∃ t', s.worker fuel commFd (cstr (getPwdMessage user)) = .ok t' := by
  obtain ⟨_, hsend, _⟩ := Run.bind_eq_ok.mp hrun
  obtain ⟨t', hworker, _⟩ := Run.bind_eq_ok.mp hsend
  exact ⟨t', hworker⟩

theorem isUserExist_newcomer (huser : ',' ∉ user) (hnul : '\x00' ∉ user) (hwired : s.lru.Wired)
    (hnew : s.lru.Newcomer user) (hrun : s.isUserExist fuel commFd user = .ok (exist, t)) :
    exist = false ∧ t.lru.Wired ∧ t.lru.Newcomer user := by
  obtain ⟨t', hworker⟩ := exists_worker hrun
  obtain ⟨hwired', hnew', hreply⟩ := worker_getPwd_newcomer huser hnul hwired hnew hworker
  have hstatus : "-ERR User not exist".toList.take 3 ≠ "+OK".toList := by decide
  have hline : "-ERR User not exist\r\n".toList = "-ERR User not exist".toList ++ "\r\n".toList := by decide
  rw [hline] at hreply
  obtain ⟨rfl, rfl⟩ := isUserExist_eq hworker hreply (by decide) (by decide) hrun
  exact ⟨decide_eq_false hstatus, hwired', hnew'⟩

theorem isUserExist_resides (huser : ',' ∉ user) (hnul : '\x00' ∉ user) (hwired : s.lru.Wired)
    (hresides : s.lru.Resides user files) (hpwd : files["pwd".toList]? = some password)
    (hrun : s.isUserExist fuel commFd user = .ok (exist, t)) :
    exist = true ∧ t.lru.Wired ∧ t.lru.Resides user files := by
  obtain ⟨t', hworker, hwired', hresides', hreply⟩ := worker_getPwd_resides huser hnul hwired hresides hpwd
  have hstatus : "+OK value as follows: ".toList.take 3 = "+OK".toList := by decide
  have hline : "+OK value as follows: \r\n".toList = "+OK value as follows: ".toList ++ "\r\n".toList := by decide
  rw [hline, List.append_assoc] at hreply
  obtain ⟨rfl, rfl⟩ := isUserExist_eq hworker hreply (by decide) (by decide) hrun
  exact ⟨decide_eq_true hstatus, hwired', hresides'⟩

/-- A login is accepted with the password that is stored, and with no other. -/
theorem isLoginValid_resides (huser : ',' ∉ user) (hnul : '\x00' ∉ user) (hwired : s.lru.Wired)
    (hresides : s.lru.Resides user files) (hpwd : files["pwd".toList]? = some (password ++ "\r\n".toList))
    (hreturn : '\r' ∉ password) (hending : password ≠ done) (fuel : Nat) (commFd : Int) (q : Str) :
    (isLoginValid (fuel + 2) s commFd user q).map Prod.fst = .ok (password = q) := by
  obtain ⟨t, hworker, _, _, hreply⟩ := worker_getPwd_resides huser hnul hwired hresides hpwd
  rw [isLoginValid_eq hworker, hreply]
  have hsent : Store.reply true (fun _ => files) (.get user "pwd".toList 0) =
      ["+OK value as follows: \r\n".toList, password ++ "\r\n".toList] := by
    rw [Store.reply, hpwd]
  have hstore : "+OK value as follows: \r\n".toList ++ (password ++ "\r\n".toList) ++ doneLine =
      pwdReply (fun _ => files) user := by
    rw [pwdReply, hsent, List.flatten_cons, List.flatten_singleton]
    rfl
  rw [hstore]
  exact readRep_pwd hpwd hreturn hending q

end Chunkserver

namespace Frontend

open Chunkserver

/-! ### Requests side by side -/

/-- How far a request to register has come: it asks for the password, it stores one, it is answered, or its
connection is lost. -/
inductive Progress where
  | asks | stores | refused | registered | lost
  deriving DecidableEq, Repr

/-- A node and the requests for one name. -/
structure Desk (ι : Type) where
  node : Chunkserver
  progress : ι → Progress

/-- One message of one request. -/
inductive Turn (ι : Type) where
  | ask (i : ι)
  | store (i : ι)

variable {ι : Type} [DecidableEq ι]

/-- The next message of a request. Its reply may never come. -/
inductive Step (username : Str) (password : ι → Str) : Desk ι → Turn ι → Desk ι → Prop where
  | ask {s : Desk ι} {i : ι} {fuel : Nat} {commFd : Int} {exist : Bool} {node : Chunkserver} (hasks : s.progress i = .asks)
      (hrun : s.node.isUserExist fuel commFd username = .ok (exist, node)) :
      Step username password s (.ask i) ⟨node, Function.update s.progress i (if exist then .refused else .stores)⟩
  | askLost {s : Desk ι} {i : ι} {fuel : Nat} {commFd : Int} {node : Chunkserver} (hasks : s.progress i = .asks)
      (hrun : s.node.worker fuel commFd (cstr (getPwdMessage username)) = .ok node) :
      Step username password s (.ask i) ⟨node, Function.update s.progress i .lost⟩
  | store {s : Desk ι} {i : ι} {fuel : Nat} {commFd : Int} {node : Chunkserver} (hstores : s.progress i = .stores)
      (hrun : s.node.addUser fuel commFd username (password i) = .ok node) :
      Step username password s (.store i) ⟨node, Function.update s.progress i .registered⟩
  | storeLost {s : Desk ι} {i : ι} {fuel : Nat} {commFd : Int} {node : Chunkserver} (hstores : s.progress i = .stores)
      (hrun : s.node.worker fuel commFd (cstr (addUserMessage username (password i))) = .ok node) :
      Step username password s (.store i) ⟨node, Function.update s.progress i .lost⟩

variable {username : Str} {password : ι → Str} {s t : Desk ι} {turn : Turn ι} {turns : List (Turn ι)} {i j : ι}

/-- What a request alone does is to ask and then, if nobody is there, to store. The page that it is answered with says
which. -/
theorem reg_steps {site site' : Site} {req : Request} {response : Response} {fuel : Nat} {commFd : Int}
    (hpost : req.method = "POST".toList) (hcredentials : credentials req = .ok (username, password i))
    (hnode : s.node = site.node) (hasks : s.progress i = .asks)
    (hrun : site.reg fuel commFd req = .ok (response, site')) :
    ∃ turns t, Run.Runs (Step username password) s turns t ∧ t.node = site'.node ∧
      (t.progress i = .registered ∧ site'.shows req "html/new-user.html" = .ok response ∨
        t.progress i = .refused ∧ site'.shows req "html/user-already-exist.html" = .ok response) := by
  have hget : req.method ≠ "GET".toList := by
    rw [hpost]
    decide
  rw [reg, if_neg hget, if_pos hpost, hcredentials, Run.ok_bind] at hrun
  obtain ⟨⟨exist, node⟩, hexist, hrun⟩ := Run.bind_eq_ok.mp hrun
  rw [← hnode] at hexist
  have hask : Step username password s (.ask i) _ := .ask hasks hexist
  cases exist with
  | true =>
      obtain ⟨page, hshows, hrun⟩ := Run.bind_eq_ok.mp hrun
      obtain ⟨rfl, rfl⟩ := Prod.mk.inj (Except.ok.inj hrun)
      exact ⟨_, _, .snoc .nil hask, rfl, Or.inr ⟨Function.update_self _ _ _, hshows⟩⟩
  | false =>
      obtain ⟨node', hadd, hrun⟩ := Run.bind_eq_ok.mp hrun
      obtain ⟨page, hshows, hrun⟩ := Run.bind_eq_ok.mp hrun
      obtain ⟨rfl, rfl⟩ := Prod.mk.inj (Except.ok.inj hrun)
      exact ⟨_, _, .snoc (.snoc .nil hask) (.store (Function.update_self _ _ _) hadd), rfl,
        Or.inl ⟨Function.update_self _ _ _, hshows⟩⟩

/-! ### One after the other -/

/-- Nobody asks while another is about to store, and what is stored is taken and can be read back. -/
def Undivided (username : Str) (password : ι → Str) (s : Desk ι) : Turn ι → Prop
  | .ask _ => ∀ j, s.progress j ≠ .stores
  | .store i => ¬ s.node.lru.Refused username (password i ++ "\r\n".toList) ∧ '\r' ∉ password i ∧ password i ≠ done

/-- Nothing is stored yet. -/
structure Vacant (username : Str) (s : Desk ι) : Prop where
  newcomer : s.node.lru.Newcomer username
  registered : ∀ i, s.progress i ≠ .registered
  alone : ∀ i j, s.progress i = .stores → s.progress j = .stores → i = j

/-- One request has stored its password. -/
structure Taken (username : Str) (password : ι → Str) (s : Desk ι) (i : ι) : Prop where
  resides : s.node.lru.Resides username ((∅ : Map Str).insert "pwd".toList (password i ++ "\r\n".toList))
  legible : '\r' ∉ password i ∧ password i ≠ done
  stores : ∀ j, s.progress j ≠ .stores
  registered : ∀ j, s.progress j = .registered → j = i

/-- What holds while the requests take turns. -/
def TakesTurns (username : Str) (password : ι → Str) (s : Desk ι) : Prop :=
  s.node.lru.Wired ∧ (Vacant username s ∨ ∃ i, Taken username password s i)

theorem update_eq {f : ι → Progress} {p q : Progress} (h : Function.update f i q j = p) :
    j = i ∧ q = p ∨ j ≠ i ∧ f j = p := by
  by_cases hj : j = i
  · subst hj
    rw [Function.update_self] at h
    exact Or.inl ⟨rfl, h⟩
  · rw [Function.update_of_ne hj] at h
    exact Or.inr ⟨hj, h⟩

section Turns

variable (huser : ',' ∉ username) (hnul : '\x00' ∉ username) {node : Chunkserver} {fuel : Nat} {commFd : Int}

theorem Vacant.quits (h : Vacant username s) (hnew : node.lru.Newcomer username) :
    Vacant username ⟨node, Function.update s.progress i .lost⟩ := by
  refine ⟨hnew, fun j hj => ?_, fun j k hj hk => ?_⟩
  · rcases update_eq hj with ⟨_, hlost⟩ | ⟨_, hj⟩
    · cases hlost
    · exact h.registered j hj
  · rcases update_eq hj with ⟨_, hlost⟩ | ⟨_, hj⟩
    · cases hlost
    rcases update_eq hk with ⟨_, hlost⟩ | ⟨_, hk⟩
    · cases hlost
    · exact h.alone j k hj hk

theorem Taken.stays {p : Progress} (h : Taken username password s j)
    (hresides : node.lru.Resides username ((∅ : Map Str).insert "pwd".toList (password j ++ "\r\n".toList)))
    (hstores : p ≠ .stores) (hregistered : p ≠ .registered) :
    Taken username password ⟨node, Function.update s.progress i p⟩ j := by
  refine ⟨hresides, h.legible, fun k hk => ?_, fun k hk => ?_⟩
  · rcases update_eq hk with ⟨_, hp⟩ | ⟨_, hk⟩
    · exact hstores hp
    · exact h.stores k hk
  · rcases update_eq hk with ⟨_, hp⟩ | ⟨_, hk⟩
    · exact absurd hp hregistered
    · exact h.registered k hk

include huser hnul

theorem Vacant.takes {p : Progress} (h : Vacant username s) (hwired : s.node.lru.Wired) (hpassword : '\x00' ∉ password i)
    (hturn : Undivided username password s (.store i)) (hstores : s.progress i = .stores) (hp : p ≠ .stores)
    (hrun : s.node.worker fuel commFd (cstr (addUserMessage username (password i))) = .ok node) :
    TakesTurns username password ⟨node, Function.update s.progress i p⟩ := by
  obtain ⟨htaken, hlegible⟩ := hturn
  obtain ⟨hwired', hresides⟩ := worker_addUserMessage huser hnul hpassword hwired h.newcomer htaken hrun
  refine ⟨hwired', Or.inr ⟨i, hresides, hlegible, fun j hj => ?_, fun j hj => ?_⟩⟩
  · rcases update_eq hj with ⟨_, heq⟩ | ⟨hne, hj⟩
    · exact hp heq
    · exact hne (h.alone j i hj hstores)
  · rcases update_eq hj with ⟨heq, _⟩ | ⟨_, hj⟩
    · exact heq
    · exact absurd hj (h.registered j)

theorem TakesTurns.step (h : TakesTurns username password s) (hpassword : ∀ i, '\x00' ∉ password i)
    (hturn : Undivided username password s turn) (hstep : Step username password s turn t) :
    TakesTurns username password t := by
  obtain ⟨hwired, hcase⟩ := h
  cases hstep with
  | ask hasks hrun =>
      rcases hcase with hvacant | ⟨i, htaken⟩
      · obtain ⟨rfl, hwired', hnew⟩ := isUserExist_newcomer huser hnul hwired hvacant.newcomer hrun
        refine ⟨hwired', Or.inl ⟨hnew, fun j hj => ?_, fun j k hj hk => ?_⟩⟩
        · rcases update_eq hj with ⟨_, hstores⟩ | ⟨_, hj⟩
          · cases hstores
          · exact hvacant.registered j hj
        · rcases update_eq hj with ⟨hj, _⟩ | ⟨_, hj⟩
          · rcases update_eq hk with ⟨hk, _⟩ | ⟨_, hk⟩
            · rw [hj, hk]
            · exact absurd hk (hturn k)
          · exact absurd hj (hturn j)
      · obtain ⟨rfl, hwired', hresides⟩ :=
          isUserExist_resides huser hnul hwired htaken.resides Std.ExtTreeMap.getElem?_insert_self hrun
        exact ⟨hwired', Or.inr ⟨i, htaken.stays hresides (by decide) (by decide)⟩⟩
  | askLost hasks hrun =>
      rcases hcase with hvacant | ⟨i, htaken⟩
      · obtain ⟨hwired', hnew, _⟩ := worker_getPwd_newcomer huser hnul hwired hvacant.newcomer hrun
        exact ⟨hwired', Or.inl (hvacant.quits hnew)⟩
      · obtain ⟨t, hrun', hwired', hresides, _⟩ :=
          worker_getPwd_resides huser hnul hwired htaken.resides Std.ExtTreeMap.getElem?_insert_self
        obtain rfl := Except.ok.inj (hrun'.symm.trans hrun)
        exact ⟨hwired', Or.inr ⟨i, htaken.stays hresides (by decide) (by decide)⟩⟩
  | store hstores hrun =>
      rcases hcase with hvacant | ⟨i, htaken⟩
      · obtain ⟨⟨_, t⟩, hsend, hrun⟩ := Run.bind_eq_ok.mp hrun
        obtain ⟨t', hworker, hsend⟩ := Run.bind_eq_ok.mp hsend
        obtain ⟨_, _, hsend⟩ := Run.bind_eq_ok.mp hsend
        obtain ⟨_, rfl⟩ := Prod.mk.inj (Except.ok.inj hsend)
        obtain rfl := Except.ok.inj hrun
        exact hvacant.takes huser hnul hwired (hpassword _) hturn hstores (by decide) hworker
      · exact absurd hstores (htaken.stores _)
  | storeLost hstores hrun =>
      rcases hcase with hvacant | ⟨i, htaken⟩
      · exact hvacant.takes huser hnul hwired (hpassword _) hturn hstores (by decide) hrun
      · exact absurd hstores (htaken.stores _)

end Turns

/-- **A name is registered once.** Where no request asks while another is about to store, and what is stored is taken
and can be read back, one request at most is answered with the page for new users. From then on a login is accepted with
its password, and with no other. -/
theorem registered_once {capacity fd : Int} {isPrimary optN : Bool} {disk : Disk} {startFuel : Nat} {node₀ : Chunkserver}
    {rounds : List Round} {requests : ι → Request}
    (hstart : (boot capacity isPrimary fd disk).initialization startFuel optN = .ok node₀)
    (hreached : Run.Runs Takes node₀ rounds s.node) (hfresh : s.node.lru.Newcomer username)
    (hasks : ∀ i, s.progress i = .asks) (hrequests : ∀ i, credentials (requests i) = .ok (username, password i))
    (huser : ',' ∉ username)
    (hrun : Run.Runs (fun s turn t => Undivided username password s turn ∧ Step username password s turn t) s turns t)
    (hi : t.progress i = .registered) :
    (∀ j, t.progress j = .registered → j = i) ∧
      ∀ fuel commFd q, (isLoginValid (fuel + 2) t.node commFd username q).map Prod.fst = .ok (password i = q) := by
  have hnul := (notMem_credentials (hrequests i)).1
  have hstarted : TakesTurns username password s := by
    refine ⟨wired_rounds hstart hreached, Or.inl ⟨hfresh, fun j hj => ?_, fun j _ hj => ?_⟩⟩
    · rw [hasks j] at hj
      cases hj
    · rw [hasks j] at hj
      cases hj
  have hends : TakesTurns username password t := by
    refine hrun.invariant (P := fun _ t => TakesTurns username password t) hstarted ?_
    exact fun _ t turn t' ht ⟨hturn, hstep⟩ =>
      ht.step huser hnul (fun j => (notMem_credentials (hrequests j)).2) hturn hstep
  obtain ⟨hwired, hvacant | ⟨k, htaken⟩⟩ := hends
  · exact absurd hi (hvacant.registered i)
  · obtain rfl := htaken.registered i hi
    obtain ⟨hreturn, hending⟩ := htaken.legible
    refine ⟨htaken.registered, fun fuel commFd q => ?_⟩
    exact isLoginValid_resides huser hnul hwired htaken.resides Std.ExtTreeMap.getElem?_insert_self hreturn hending
      fuel commFd q

/-- A node that has just started with `-n` has no trace of anybody. -/
theorem newcomer_initialization {capacity fd : Int} {isPrimary : Bool} {disk : Disk} {fuel : Nat} {node : Chunkserver}
    {user : Str} (hstart : (boot capacity isPrimary fd disk).initialization fuel true = .ok node) :
    node.lru.Newcomer user := by
  obtain ⟨hheap, hnodes, _, hvirmem⟩ := initialization_new hstart
  have hboot : (boot capacity isPrimary fd disk).lru.Newcomer user := newcomer_fresh
  exact hboot.congr hheap hnodes hvirmem

/-- A request to register the user `u`. -/
def registration (password : Str) : Request :=
  ⟨"POST".toList, "/register".toList, "HTTP/1.1".toList, 0, ∅, "username=u&password=".toList ++ password⟩

def inTurnRun : Except Fault (Chunkserver × Bool × Chunkserver × Chunkserver × Bool × Chunkserver) := do
  let node₀ ← (boot 100 true 5 Disk.empty).initialization 5 true
  let (exist₁, node₁) ← node₀.isUserExist 5 7 "u".toList
  let node₂ ← node₁.addUser 5 7 "u".toList "p".toList
  let (exist₂, node₃) ← node₂.isUserExist 5 8 "u".toList
  .ok (node₀, exist₁, node₁, node₂, exist₂, node₃)

def inTurnEnds : Chunkserver × Bool × Chunkserver × Chunkserver × Bool × Chunkserver → Bool
  | (_, exist₁, node₁, _, exist₂, _) =>
      decide (exist₁ = false ∧ ¬ node₁.lru.Refused "u".toList "p\r\n".toList ∧ exist₂ = true)

/-- A request asks and stores, and another one asks behind it. -/
theorem registered_once_in_turn : ∃ t : Desk Bool, t.progress true = .registered ∧ t.progress false = .refused ∧
    (∀ j, t.progress j = .registered → j = true) ∧
      ∀ fuel commFd q, (isLoginValid (fuel + 2) t.node commFd "u".toList q).map Prod.fst = .ok ("p".toList = q) := by
  have hends : inTurnRun.toOption.any inTurnEnds = true := by decide +kernel
  cases hrun : inTurnRun with
  | error fault => exact absurd hends (by rw [hrun]; exact Bool.false_ne_true)
  | ok states =>
      obtain ⟨node₀, exist₁, node₁, node₂, exist₂, node₃⟩ := states
      rw [hrun] at hends
      obtain ⟨rfl, htaken, rfl⟩ := of_decide_eq_true hends
      obtain ⟨_, hstart, hrest⟩ := Run.bind_eq_ok.mp hrun
      obtain ⟨⟨_, _⟩, hask₁, hrest⟩ := Run.bind_eq_ok.mp hrest
      obtain ⟨_, hadd, hrest⟩ := Run.bind_eq_ok.mp hrest
      obtain ⟨⟨_, _⟩, hask₂, hrest⟩ := Run.bind_eq_ok.mp hrest
      cases hrest
      let password : Bool → Str := fun i => if i then "p".toList else "q".toList
      let s : Desk Bool := ⟨node₀, fun _ => .asks⟩
      let s₁ : Desk Bool := ⟨node₁, Function.update s.progress true (if false then .refused else .stores)⟩
      let s₂ : Desk Bool := ⟨node₂, Function.update s₁.progress true .registered⟩
      have hfirst : Step "u".toList password s (.ask true) s₁ := .ask rfl hask₁
      have hsecond : Step "u".toList password s₁ (.store true) s₂ := .store rfl hadd
      let s₃ : Desk Bool := ⟨node₃, Function.update s₂.progress false (if true then .refused else .stores)⟩
      have hthird : Step "u".toList password s₂ (.ask false) s₃ := .ask rfl hask₂
      have hturns : Run.Runs (fun s turn t => Undivided "u".toList password s turn ∧ Step "u".toList password s turn t) s
          [.ask true, .store true, .ask false] s₃ := by
        refine .cons ⟨nofun, hfirst⟩ (.cons ⟨⟨htaken, by decide, by decide⟩, hsecond⟩ (.cons ⟨fun j => ?_, hthird⟩ .nil))
        cases j with
        | false => exact Progress.noConfusion
        | true => exact Progress.noConfusion
      have hrequests (i : Bool) : credentials (registration (password i)) = .ok ("u".toList, password i) := by
        cases i <;> decide +kernel
      exact ⟨_, rfl, rfl, registered_once hstart .nil (newcomer_initialization hstart) (fun _ => rfl) hrequests (by decide)
        hturns rfl⟩

def interleavedRun : Except Fault (Chunkserver × Bool × Chunkserver × Bool × Chunkserver × Chunkserver × Chunkserver) := do
  let node₀ ← (boot 100 true 5 Disk.empty).initialization 5 true
  let (exist₁, node₁) ← node₀.isUserExist 5 7 "u".toList
  let (exist₂, node₂) ← node₁.isUserExist 5 8 "u".toList
  let node₃ ← node₂.addUser 5 7 "u".toList "p".toList
  let node₄ ← node₃.addUser 5 8 "u".toList "q".toList
  .ok (node₀, exist₁, node₁, exist₂, node₂, node₃, node₄)

def interleavedEnds : Chunkserver × Bool × Chunkserver × Bool × Chunkserver × Chunkserver × Chunkserver → Bool
  | (_, exist₁, _, exist₂, _) => decide (exist₁ = false ∧ exist₂ = false)

/-- Two requests ask before either stores. Both are answered with the page for new users. -/
theorem registered_once_counterexample :
    ¬ ∀ (requests : Bool → Request) (username : Str) (password : Bool → Str) (s t : Desk Bool) (turns : List (Turn Bool)),
      (boot 100 true 5 Disk.empty).initialization 5 true = .ok s.node → s.node.lru.Newcomer username →
      (∀ i, s.progress i = .asks) → (∀ i, credentials (requests i) = .ok (username, password i)) → ',' ∉ username →
      Run.Runs (Step username password) s turns t →
      ∀ i j, t.progress i = .registered → t.progress j = .registered → i = j := by
  intro hall
  have hends : interleavedRun.toOption.any interleavedEnds = true := by decide +kernel
  cases hrun : interleavedRun with
  | error fault => exact absurd hends (by rw [hrun]; exact Bool.false_ne_true)
  | ok states =>
      obtain ⟨node₀, exist₁, node₁, exist₂, node₂, node₃, node₄⟩ := states
      rw [hrun] at hends
      obtain ⟨rfl, rfl⟩ := of_decide_eq_true hends
      obtain ⟨_, hstart, hrest⟩ := Run.bind_eq_ok.mp hrun
      obtain ⟨⟨_, _⟩, hask₁, hrest⟩ := Run.bind_eq_ok.mp hrest
      obtain ⟨⟨_, _⟩, hask₂, hrest⟩ := Run.bind_eq_ok.mp hrest
      obtain ⟨_, hadd₁, hrest⟩ := Run.bind_eq_ok.mp hrest
      obtain ⟨_, hadd₂, hrest⟩ := Run.bind_eq_ok.mp hrest
      cases hrest
      let password : Bool → Str := fun i => if i then "p".toList else "q".toList
      let s : Desk Bool := ⟨node₀, fun _ => .asks⟩
      have hturns : Run.Runs (Step "u".toList password) s _ _ :=
        .snoc (.snoc (.snoc (.snoc .nil (.ask (i := true) rfl hask₁)) (.ask (i := false) rfl hask₂))
          (.store (i := true) rfl hadd₁)) (.store (i := false) rfl hadd₂)
      have hrequests (i : Bool) : credentials (registration (password i)) = .ok ("u".toList, password i) := by
        cases i <;> decide +kernel
      have hsame := hall _ "u".toList password s _ _ hstart (newcomer_initialization hstart) (fun _ => rfl) hrequests
        (by decide) hturns true false rfl rfl
      exact absurd hsame (by decide)

end Frontend

end PennCloud
