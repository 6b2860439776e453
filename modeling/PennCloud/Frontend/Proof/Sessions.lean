import PennCloud.Frontend.Proof.Registration
import PennCloud.Frontend.Proof.RoundTrip
import PennCloud.Kv.Proof.Settled
import PennCloud.Lib.History

/-!
# Sessions

A frontend that starts without sessions has one for a user exactly when the user has entered since the last time the user left. Only a
post with the password of a user enters.
-/

namespace PennCloud

open Std

/-! ### The password -/

namespace Chunkserver

variable {s t : Chunkserver} {fuel : Nat} {commFd : Int} {user password : Str}

/-- What the node of a user answers to a get of the password. -/
theorem repliesOn_settled (huser : ',' ∉ user) (hnul : '\x00' ∉ user) (h : s.lru.Settled) :
    ∃ t, s.worker fuel commFd (cstr (getPwdMessage user)) = .ok t ∧ repliesOn commFd s t = pwdReply s.lru.filesOf user := by
  obtain ⟨lru, hget, hobeys⟩ := @LRUCache.Settled.get _ user "pwd".toList fuel commFd h
  refine ⟨({ s with lru := lru } : Chunkserver).sendDone commFd, ?_, ?_⟩
  · rw [worker_getPwdMessage huser hnul, show s.lru.get fuel user "pwd".toList commFd = .ok lru from hget]
    rfl
  · have hsent : lru.sent = s.lru.sent ++ (Store.reply true s.lru.filesOf (.get user "pwd".toList 0)).map (Prod.mk commFd) := hobeys.sent
    change (((lru.sent ++ [(commFd, "!!!DONE!!!\r\n".toList)]).drop s.lru.sent.length).filter _).flatMap Prod.snd = _
    rw [hsent, List.append_assoc, List.drop_left, pwdReply]
    simp [List.filter_append, List.filter_map, Function.comp_def, List.flatMap_map]

theorem exists_tail {message line rest : Str} {rep : List Str} (hmessage : message.take 7 ≠ "getlist".toList) (hline : '\r' ∉ line)
    (hending : line ≠ "!!!DONE!!!".toList) (h : readRep fuel message (line ++ "\r\n".toList ++ rest) = .ok rep) :
    ∃ tail, rep = line :: tail ∧ repLines fuel "!!!DONE!!!".toList rest = .ok tail := by
  rw [readRep, readRepLine_crlf hline, List.nil_append] at h
  simp only [if_neg hending, if_neg hmessage] at h
  obtain ⟨tail, htail, h⟩ := Run.bind_eq_ok.mp h
  exact ⟨tail, (Except.ok.inj h).symm, htail⟩

theorem matchPwd_cons {line : Str} {tail : List Str} (h : matchPwd (line :: tail) password = .ok true) :
    line.take 3 = "+OK".toList ∧ ∃ tail', tail = password :: tail' := by
  rw [matchPwd] at h
  obtain ⟨status, hstatus, h⟩ := Run.bind_eq_ok.mp h
  obtain rfl := Except.ok.inj (show Except.ok line = Except.ok status from hstatus)
  split at h
  · next hok =>
      obtain ⟨value, hvalue, h⟩ := Run.bind_eq_ok.mp h
      have hpassword := of_decide_eq_true (Except.ok.inj h)
      cases tail with
      | nil => cases hvalue
      | cons first tail =>
          have hfirst := Except.ok.inj (show Except.ok first = Except.ok value from hvalue)
          exact ⟨hok, tail, by rw [hfirst, hpassword]⟩
  · cases h

/-- A password is valid only if it is the first line of the one that is stored. -/
theorem password_eq_of_isLoginValid (huser : ',' ∉ user) (hnul : '\x00' ∉ user) (h : s.lru.Settled)
    (hvalid : s.isLoginValid fuel commFd user password = .ok (true, t)) :
    ∃ value, (s.lru.filesOf user)["pwd".toList]? = some value ∧ password = (readRepLine [] (value ++ "!!!DONE!!!\r\n".toList)).1 := by
  obtain ⟨t', hworker, hreplies⟩ := @repliesOn_settled s fuel commFd user huser hnul h
  have heq := isLoginValid_eq hworker password
  rw [hvalid, hreplies] at heq
  obtain ⟨rep, hrep, hmatch⟩ := Run.bind_eq_ok.mp heq.symm
  rw [pwdReply, Store.reply] at hrep
  cases hstored : (s.lru.filesOf user)["pwd".toList]? with
  | none =>
      obtain ⟨line, hmissing, hreturn, hending, hstatus⟩ : ∃ line : Str, Store.missing (s.lru.filesOf user) = line ++ "\r\n".toList ∧
          '\r' ∉ line ∧ line ≠ "!!!DONE!!!".toList ∧ line.take 3 ≠ "+OK".toList := by
        rw [Store.missing]
        split
        · exact ⟨"-ERR User not exist".toList, by decide⟩
        · exact ⟨"-ERR No such file".toList, by decide⟩
      rw [hstored] at hrep
      dsimp only at hrep
      rw [List.flatten_singleton, hmissing] at hrep
      obtain ⟨tail, rfl, _⟩ := exists_tail (getPwdMessage_take user) hreturn hending hrep
      exact absurd (matchPwd_cons hmatch).1 hstatus
  | some value =>
      rw [hstored] at hrep
      dsimp only at hrep
      rw [List.flatten_cons, List.flatten_singleton, List.append_assoc] at hrep
      have hhead : "+OK value as follows: \r\n".toList = "+OK value as follows: ".toList ++ "\r\n".toList := rfl
      rw [hhead] at hrep
      obtain ⟨tail, rfl, htail⟩ := exists_tail (getPwdMessage_take user) (by decide) (by decide) hrep
      obtain ⟨_, tail', rfl⟩ := matchPwd_cons hmatch
      refine ⟨value, rfl, ?_⟩
      cases fuel with
      | zero => cases htail
      | succ fuel =>
          rw [repLines] at htail
          dsimp only at htail
          split at htail
          · cases htail
          · obtain ⟨_, _, htail⟩ := Run.bind_eq_ok.mp htail
            exact (List.cons.inj (Except.ok.inj htail)).1.symm

end Chunkserver

/-! ### Entering and leaving -/

namespace Frontend

/-- What a request does to the sessions. -/
inductive Pass where
  | enters (username : Str)
  | leaves (username : Str)
  deriving DecidableEq

def Pass.apply (sessions : ExtTreeSet Str) : Pass → ExtTreeSet Str
  | .enters username => sessions.insert username
  | .leaves username => sessions.erase username

theorem mem_apply {sessions : ExtTreeSet Str} {id : Str} (pass : Pass) :
    id ∈ pass.apply sessions ↔ pass = .enters id ∨ id ∈ sessions ∧ pass ≠ .leaves id := by
  cases pass with
  | enters username =>
      rw [Pass.apply, ExtTreeSet.mem_insert, LawfulEqCmp.compare_eq_iff_eq]
      simp
  | leaves username =>
      rw [Pass.apply, ExtTreeSet.mem_erase, ne_eq, LawfulEqCmp.compare_eq_iff_eq]
      simp [and_comm]

/-- Of the users that enter and leave those are in who have entered since they last left. -/
theorem mem_foldl_apply (id : Str) (passes : List Pass) :
    id ∈ passes.foldl Pass.apply ∅ ↔ Pass.enters id ∈ History.since (fun pass => pass = .leaves id) passes := by
  unfold History.since
  induction passes using List.reverseRecOn with
  | nil =>
      rw [List.foldl_nil]
      simp
  | append_singleton passes pass ih =>
      rw [List.foldl_append, List.foldl_cons, List.foldl_nil, mem_apply, ih]
      by_cases hleaves : pass = .leaves id
      · subst hleaves
        rw [List.rtakeWhile_concat_neg _ _ _ (by simp)]
        simp
      · rw [List.rtakeWhile_concat_pos _ _ _ (by simpa using hleaves), List.mem_append, List.mem_singleton]
        constructor
        · rintro (heq | ⟨hin, _⟩)
          · exact Or.inr heq.symm
          · exact Or.inl hin
        · rintro (hin | heq)
          · exact Or.inr ⟨hin, hleaves⟩
          · exact Or.inl heq.symm

namespace Site

variable {around : Outside} {fuel : Nat} {commFd : Int} {start site site' : Site} {req : Request} {response : Response}

/-- The user that a post to the page for logins enters. -/
def entering (fuel : Nat) (commFd : Int) (site : Site) (req : Request) : Option Str :=
  if req.method = "POST".toList then
    match credentials req with
    | .ok (username, password) =>
        match site.node.isLoginValid fuel commFd username password with
        | .ok (true, _) => some username
        | _ => none
    | .error _ => none
  else none

/-- Who leaves and who enters with a request. A logout is followed by the page for logins. -/
def passes (fuel : Nat) (commFd : Int) (site : Site) (req : Request) : List Pass :=
  let enters := (entering fuel commFd site req).toList.map Pass.enters
  match site.page req with
  | .login => enters
  | .logout => .leaves ((site.isAlreadyLogin req.cookies).getD site.userName) :: enters
  | _ => []

theorem sessions_login : Run.Yields (fun answer => answer.2.sessions =
    ((entering fuel commFd site req).toList.map Pass.enters).foldl Pass.apply site.sessions) (site.login fuel commFd req) := by
  unfold login
  dsimp only
  by_cases hpost : req.method = "POST".toList
  · rw [if_neg fun hget => absurd (hpost.symm.trans hget.1) (by decide), if_pos hpost]
    refine .bind fun names hnames => .bind fun found hvalid => ?_
    obtain ⟨username, password⟩ := names
    obtain ⟨valid, node⟩ := found
    dsimp only at hvalid ⊢
    cases valid with
    | true =>
        have hentering : entering fuel commFd site req = some username := by
          rw [entering, if_pos hpost, hnames]
          dsimp only
          rw [hvalid]
        rw [if_pos rfl, hentering]
        exact .bind fun _ _ => .ok rfl
    | false =>
        have hentering : entering fuel commFd site req = none := by
          rw [entering, if_pos hpost, hnames]
          dsimp only
          rw [hvalid]
        rw [if_neg Bool.false_ne_true, hentering]
        refine .bind fun _ _ => ?_
        split
        · exact .bind fun _ _ => .ok rfl
        · exact .ok rfl
  · have hentering : entering fuel commFd site req = none := if_neg hpost
    rw [if_neg hpost, hentering]
    split
    · exact .bind fun _ _ => .ok rfl
    · split
      · exact .bind fun _ _ => .ok rfl
      · exact .ok rfl

/-- The sessions stay as they are. -/
def KeepsSessions (site : Site) (answer : Response × Site) : Prop := answer.2.sessions = site.sessions

theorem keepsSessions_reg : Run.Yields (KeepsSessions site) (site.reg fuel commFd req) := by
  unfold reg
  split
  · exact .bind fun _ _ => .ok rfl
  split
  · refine .bind fun names _ => .bind fun found _ => ?_
    dsimp only
    split
    · exact .bind fun _ _ => .ok rfl
    · exact .bind fun _ _ => .bind fun _ _ => .ok rfl
  · exact .ok rfl

theorem keepsSessions_handleUpload : Run.Yields (KeepsSessions site) (site.handleUpload fuel commFd req) :=
  .bind fun _ _ => .bind fun _ _ => .bind fun _ _ => .bind fun _ _ => .bind fun _ _ => .bind fun _ _ => .ok rfl

theorem keepsSessions_deleteFile : Run.Yields (KeepsSessions site) (site.deleteFile fuel commFd req) :=
  .bind fun _ _ => .bind fun _ _ => .bind fun _ _ => .bind fun _ _ => .bind fun _ _ => .ok rfl

theorem keepsSessions_createNewFolder : Run.Yields (KeepsSessions site) (site.createNewFolder req) :=
  .bind fun _ _ => .bind fun _ _ => .bind fun _ _ => .ok rfl

theorem keepsSessions_renameFile : Run.Yields (KeepsSessions site) (site.renameFile req) :=
  .bind fun _ _ => .bind fun _ _ => .bind fun _ _ => .ok rfl

theorem keepsSessions_moveFile : Run.Yields (KeepsSessions site) (site.moveFile req) :=
  .bind fun _ _ => .bind fun _ _ => .bind fun _ _ => .ok rfl

theorem keepsSessions_deleteFolder : Run.Yields (KeepsSessions site) (site.deleteFolder req) :=
  .bind fun _ _ => .bind fun _ _ => .ok rfl

theorem keepsSessions_download : Run.Yields (KeepsSessions site) (site.download fuel commFd req) := by
  refine .bind fun _ _ => .bind fun _ _ => .bind fun _ _ => ?_
  dsimp only
  split
  · exact .bind fun _ _ => .ok rfl
  · exact .bind fun _ _ => .ok rfl

/-- A request changes the sessions by who leaves and who enters. -/
theorem sessions_answer : Run.Yields (fun answer => answer.2.sessions = (passes fuel commFd site req).foldl Pass.apply site.sessions)
    (site.answer around fuel commFd req) := by
  have hmember (x : Except Fault (Response × Site))
      (h : Run.Yields (KeepsSessions { site with userName := (site.isAlreadyLogin req.cookies).getD site.userName }) x) :
      Run.Yields (KeepsSessions site) x := h
  have hnode (x : Except Fault (Response × Site))
      (h : Run.Yields (fun answer =>
        OnlyNode { site with userName := (site.isAlreadyLogin req.cookies).getD site.userName } answer.2) x) :
      Run.Yields (KeepsSessions site) x := by
    intro answer hanswer
    have honly := h answer hanswer
    exact honly.sessions
  have hkeeps (x : Except Fault (Response × Site)) (h : Run.Yields (KeepsSessions site) x) :
      Run.Yields (fun answer => answer.2.sessions = ([] : List Pass).foldl Pass.apply site.sessions) x := h
  rw [answer, respond, passes]
  dsimp only
  cases site.page req with
  | login =>
      dsimp only
      split
      · exact sessions_login
      · exact @sessions_login fuel commFd { site with userName := (site.isAlreadyLogin req.cookies).getD site.userName } req
  | logout =>
      -- the page for logins is shown to a visitor without the session
      exact @sessions_login fuel commFd { site with
        userName := (site.isAlreadyLogin req.cookies).getD site.userName
        sessions := site.sessions.erase ((site.isAlreadyLogin req.cookies).getD site.userName) } req
  | reg => exact hkeeps _ keepsSessions_reg
  | file => exact .bind fun _ _ => .ok rfl
  | upload => exact .bind fun _ _ => .ok rfl
  | nothing => exact .ok rfl
  | adminConsole => exact .bind fun _ hconsole => .ok (onlyNode_adminConsole _ hconsole).sessions
  | downloadFile => exact .bind fun _ _ => .ok rfl
  | sendEmail => exact .bind fun _ _ => .ok rfl
  | handleSendEmail => exact .bind fun _ _ => .ok rfl
  | inbox => exact hkeeps _ (hnode _ onlyNode_inbox)
  | viewEmail => exact hkeeps _ (hnode _ onlyNode_viewEmail)
  | forwardEmail => exact hkeeps _ (hnode _ onlyNode_forwardEmail)
  | replyEmail => exact hkeeps _ (hnode _ onlyNode_replyEmail)
  | deleteEmail => exact hkeeps _ (hnode _ onlyNode_deleteEmail)
  | handleUpload => exact hkeeps _ (hmember _ keepsSessions_handleUpload)
  | download => exact hkeeps _ (hmember _ keepsSessions_download)
  | createNewFolder => exact hkeeps _ (hmember _ keepsSessions_createNewFolder)
  | renameFile => exact hkeeps _ (hmember _ keepsSessions_renameFile)
  | deleteFile => exact hkeeps _ (hmember _ keepsSessions_deleteFile)
  | deleteFolder => exact hkeeps _ (hmember _ keepsSessions_deleteFolder)
  | moveFile => exact hkeeps _ (hmember _ keepsSessions_moveFile)

/-! ### One request after another -/

/-- A request that is answered, with who leaves and who enters by it. -/
def Asks (site : Site) (event : Request × List Pass) (site' : Site) : Prop :=
  ∃ around fuel commFd response, site.answer around fuel commFd event.1 = .ok (response, site') ∧
    event.2 = passes fuel commFd site event.1

theorem sessions_of_runs {events : List (Request × List Pass)} (hrun : Run.Runs Asks start events site) :
    site.sessions = (events.flatMap Prod.snd).foldl Pass.apply start.sessions := by
  refine Run.Runs.invariant (P := fun events site => site.sessions = (events.flatMap Prod.snd).foldl Pass.apply start.sessions) rfl
    (fun events site event site' h hstep => ?_) hrun
  obtain ⟨around, fuel, commFd, response, hanswer, hpasses⟩ := hstep
  rw [List.flatMap_append, List.flatMap_singleton, List.foldl_append, ← h, hpasses]
  exact sessions_answer _ hanswer

/-- A post with the password of a user, as it is stored. -/
structure GivesPassword (site : Site) (req : Request) (id : Str) : Prop where
  post : req.method = "POST".toList
  password : ∃ password, credentials req = .ok (id, password) ∧
    (site.node.lru.Settled → ',' ∉ id → ∃ value, (site.node.lru.filesOf id)["pwd".toList]? = some value ∧
      password = (readRepLine [] (value ++ "!!!DONE!!!\r\n".toList)).1)

theorem givesPassword_of_entering {id : Str} (h : entering fuel commFd site req = some id) : site.GivesPassword req id := by
  rw [entering] at h
  split at h
  · next hpost =>
      split at h
      · next username password hcredentials =>
          split at h
          · next node hvalid =>
              obtain rfl := Option.some.inj h
              refine ⟨hpost, password, hcredentials, fun hsettled hcomma => ?_⟩
              exact Chunkserver.password_eq_of_isLoginValid hcomma (notMem_credentials hcredentials) hsettled hvalid
          · cases h
      · cases h
  · cases h

theorem givesPassword_of_mem {id : Str} (h : Pass.enters id ∈ passes fuel commFd site req) : site.GivesPassword req id := by
  have hentering (h : Pass.enters id ∈ (entering fuel commFd site req).toList.map Pass.enters) : site.GivesPassword req id := by
    obtain ⟨username, hmem, heq⟩ := List.mem_map.mp h
    obtain rfl := Pass.enters.inj heq
    exact givesPassword_of_entering (Option.mem_toList.mp hmem)
  rw [passes] at h
  split at h
  · exact hentering h
  · rcases List.mem_cons.mp h with heq | h
    · cases heq
    · exact hentering h
  · cases h

/-- A user is taken to be logged in who has entered since the last time they left, and whoever has entered gave the password that was
stored then. -/
theorem isAlreadyLogin_iff_of_runs {events : List (Request × List Pass)} (hstart : start.sessions = ∅)
    (hrun : Run.Runs Asks start events site) :
    (∀ id, site.isAlreadyLogin req.cookies = some id ↔ req.cookies["sessionid".toList]? = some id ∧
      Pass.enters id ∈ History.since (fun pass => pass = .leaves id) (events.flatMap Prod.snd)) ∧
    ∀ before event after id, events = before ++ event :: after → Pass.enters id ∈ event.2 →
      ∃ mid mid', Run.Runs Asks start before mid ∧ Asks mid event mid' ∧ Run.Runs Asks mid' after site ∧ mid.GivesPassword event.1 id := by
  constructor
  · intro id
    rw [← mem_foldl_apply, ← hstart, ← sessions_of_runs hrun, isAlreadyLogin]
    split
    · next id' hget =>
        rw [hget]
        split
        · next hcontains =>
            constructor
            · intro heq
              obtain rfl := Option.some.inj heq
              exact ⟨rfl, ExtTreeSet.mem_iff_contains.mpr hcontains⟩
            · exact fun h => h.1
        · next hcontains =>
            refine iff_of_false (Option.some_ne_none id).symm fun h => hcontains ?_
            obtain rfl := Option.some.inj h.1
            exact ExtTreeSet.mem_iff_contains.mp h.2
    · next hget =>
        rw [hget]
        exact iff_of_false (Option.some_ne_none id).symm fun h => (Option.some_ne_none id).symm h.1
  · rintro before event after id rfl henters
    obtain ⟨mid, hbefore, hrest⟩ := hrun.exists_mid
    obtain ⟨mid', hstep, hafter⟩ := @Run.Runs.exists_mid _ _ _ _ _ [event] after hrest
    obtain ⟨around, fuel, commFd, response, hanswer, hpasses⟩ := hstep.of_singleton
    exact ⟨mid, mid', hbefore, ⟨around, fuel, commFd, response, hanswer, hpasses⟩, hafter, givesPassword_of_mem (hpasses ▸ henters)⟩

theorem answers_emptySite : (match emptySite.answer .silent 5 7 (registers "a").2 with
    | .ok (_, site₁) =>
        match site₁.answer .silent 5 7 (logsIn "a").2 with
        | .ok (_, site) => decide (site.isAlreadyLogin (cookieOf "a") = some "a".toList)
        | .error _ => false
    | .error _ => false) = true := by decide +kernel

theorem isAlreadyLogin_iff_of_runs_login : ∃ (site : Site) (events : List (Request × List Pass)),
    site.isAlreadyLogin (cookieOf "a") = some "a".toList ∧ Run.Runs Asks emptySite events site ∧
      (∀ id, site.isAlreadyLogin (cookieOf "a") = some id ↔ (cookieOf "a")["sessionid".toList]? = some id ∧
        Pass.enters id ∈ History.since (fun pass => pass = .leaves id) (events.flatMap Prod.snd)) ∧
      ∀ before event after id, events = before ++ event :: after → Pass.enters id ∈ event.2 →
        ∃ mid mid', Run.Runs Asks emptySite before mid ∧ Asks mid event mid' ∧ Run.Runs Asks mid' after site ∧
          mid.GivesPassword event.1 id := by
  have hends := answers_emptySite
  split at hends
  · next response₁ site₁ hregisters =>
      split at hends
      · next response site hlogsIn =>
          have hfirst : Asks emptySite ((registers "a").2, passes 5 7 emptySite (registers "a").2) site₁ :=
            ⟨.silent, 5, 7, response₁, hregisters, rfl⟩
          have hlast : Asks site₁ ((logsIn "a").2, passes 5 7 site₁ (logsIn "a").2) site := ⟨.silent, 5, 7, response, hlogsIn, rfl⟩
          have hrun := Run.Runs.cons hfirst (.snoc .nil hlast)
          exact ⟨site, _, of_decide_eq_true hends, hrun,
            @isAlreadyLogin_iff_of_runs emptySite site ⟨[], [], [], 0, cookieOf "a", []⟩ _ rfl hrun⟩
      · cases hends
  · cases hends

end Site

end Frontend

end PennCloud
