import PennCloud.Frontend.Proof.Lines
import PennCloud.Kv.Proof.Convergence
import PennCloud.Kv.Proof.Gets
import PennCloud.Webmail.Webmail

/-!
# Mail and passwords

A mail is stored in the row of its recipient, next to the password. Two runs of a node that differ in one
mail hold the same password as long as no step of either loses contents, and a login reads it. A comma in
the text of the mail is read as the end of a field when the row comes back from disk.
-/

namespace PennCloud

open LRUCache

/-! ### Lines of a reply -/

theorem readRepLine_crlf {line : Str} (hline : '\r' ∉ line) (front rest : Str) :
    readRepLine front (line ++ "\r\n".toList ++ rest) = (front ++ line, rest) := by
  rw [List.append_assoc]
  exact readRepLine_append hline front rest

theorem readRep_line {fuel : Nat} {message line : Str} (hmessage : message.take 7 ≠ "getlist".toList) (hline : '\r' ∉ line)
    (hending : line ≠ "!!!DONE!!!".toList) :
    readRep (fuel + 1) message (line ++ "\r\n".toList ++ "!!!DONE!!!\r\n".toList) = .ok [line] := by
  rw [readRep, readRepLine_crlf hline, List.nil_append]
  simp only [if_neg hending, if_neg hmessage]
  rfl

theorem readRep_lines {fuel : Nat} {message line line' : Str} (hmessage : message.take 7 ≠ "getlist".toList)
    (hline : '\r' ∉ line) (hending : line ≠ "!!!DONE!!!".toList) (hline' : '\r' ∉ line')
    (hending' : line' ≠ "!!!DONE!!!".toList) :
    readRep (fuel + 2) message (line ++ "\r\n".toList ++ (line' ++ "\r\n".toList ++ "!!!DONE!!!\r\n".toList)) =
      .ok [line, line'] := by
  rw [readRep, readRepLine_crlf hline, List.nil_append]
  simp only [if_neg hending, if_neg hmessage]
  rw [repLines, readRepLine_crlf hline', List.nil_append]
  simp only [if_neg hending']
  rfl

/-! ### Steps that lose nothing -/

namespace Store

variable {store : Store} {user filename value f : Str} {capacity commFd seqNum : Int} {op : Op}

theorem step_put_of_ne (hne : filename ≠ f) :
    (store.step capacity (.put user filename value commFd seqNum) user)[f]? = (store user)[f]? := by
  rw [step]
  split
  · rw [Function.update_self, addFile, SortedMap.getElem?_insert_eq, if_neg hne]
  · rfl

end Store

namespace LRUCache

variable {lru lru' : LRUCache} {capacity : Int} {store : Store} {fuel : Nat} {op : Op}

/-- A put that is too large, or over the quota of its user. -/
def Declines (s : LRUCache) : Op → Prop
  | .put user _ value _ _ => s.Refused user value
  | .get _ _ _ => False
  | .cput _ _ _ _ _ _ => False
  | .dele _ _ _ _ _ => False
  | .rename _ _ _ _ _ => False

/-- The step loses nothing, or stores nothing. -/
def Harmless (s : LRUCache) (op : Op) : Prop := s.Preserving op ∨ s.Declines op

theorem Harmless.holds (hop : lru.Harmless op) (h : lru.Filled ∨ Holds lru capacity store)
    (hexec : lru.exec fuel op = .ok lru') : lru'.Filled ∨ Holds lru' capacity (store.step capacity op) := by
  rcases hop with hpreserving | hdeclines
  · exact Chunkserver.holds_exec h hpreserving hexec
  · rcases h with hfilled | hholds
    · exact Or.inl (hfilled.exec hexec)
    · cases op with
      | put user filename value commFd seqNum =>
          refine or_iff_not_imp_left.mpr fun hfilled => ?_
          have hkept := ((hholds.good.put_refused hdeclines).right lru' hexec hfilled).holds_self
          have hquota := hholds.good.refused_iff.mp hdeclines
          rw [hholds.capacity, hholds.filesOf] at hquota hkept
          rw [Store.step, if_neg (by omega)]
          exact hkept
      | get => exact absurd hdeclines id
      | cput => exact absurd hdeclines id
      | dele => exact absurd hdeclines id
      | rename => exact absurd hdeclines id

end LRUCache

namespace Chunkserver

variable {s s' m t t' : Chunkserver} {user password : Str} {commFd capacity fd : Int} {fuel : Nat}
  {store store' : Store} {message : Int × Str} {earlier later : List (Int × Str)}

/-- The message writes no file of this user. -/
def Spares (user : Str) (message : Int × Str) : Prop :=
  ∀ request, requested (cstr message.2) = some request → (request 0 0).user ≠ user

theorem Spares.stepLine (h : Spares user message) : store.stepLine capacity (cstr message.2) user = store user := by
  rw [Store.stepLine]
  cases hrequested : requested (cstr message.2) with
  | none => rfl
  | some request => exact Store.step_of_ne (h request hrequested)

theorem Serves.holds_harmless (hserves : Serves Harmless s message s') (h : s.lru.Filled ∨ Holds s.lru capacity store) :
    s'.lru.Filled ∨ Holds s'.lru capacity (store.stepLine capacity (cstr message.2)) :=
  hserves.holds (fun _ _ _ hop hexec => hop.holds h hexec) h

theorem holds_of_spared (hrun : Run.Runs (Serves Harmless) s later t) (hspares : ∀ message ∈ later, Spares user message)
    (h : s.lru.Filled ∨ Holds s.lru capacity store) :
    t.lru.Filled ∨ ∃ store', Holds t.lru capacity store' ∧ store' user = store user := by
  refine hrun.invariant (P := fun later t => (∀ message ∈ later, Spares user message) →
    t.lru.Filled ∨ ∃ store', Holds t.lru capacity store' ∧ store' user = store user) ?_ ?_ hspares
  · exact fun _ => h.imp_right fun hholds => ⟨store, hholds, rfl⟩
  · intro later t message t' ih hserves hspares
    have hspared := hspares message (List.mem_append_right _ (List.mem_singleton_self message))
    rcases ih fun message hmem => hspares message (List.mem_append_left _ hmem) with hfilled | ⟨store', hholds, hsame⟩
    · have hleft : t.lru.Filled ∨ Holds t.lru capacity store := Or.inl hfilled
      exact (hserves.holds_harmless hleft).imp_right fun hholds => ⟨_, hholds, hspared.stepLine⟩
    · exact (hserves.holds_harmless (Or.inr hholds)).imp_right fun hholds =>
        ⟨_, hholds, hspared.stepLine.trans hsame⟩

/-! ### The mail -/

theorem cstr_mailMessage (hnul : '\x00' ∉ user) (digest : Str → Fin 16 → Fin 256) (text : Str) :
    cstr (mailMessage digest user text) =
      "put ".toList ++ (user ++ ',' :: (("##".toList ++ hashToMD5 digest text) ++ ',' :: cstr (text ++ "\r\n".toList))) := by
  have hfront : '\x00' ∉ "put ".toList ++ user ++ ",##".toList ++ hashToMD5 digest text ++ [','] := by
    have hdigits : '\x00' ∉ hashToMD5 digest text := notMem_hashToMD5 (by decide) digest text
    simp [hnul, hdigits]
  have happend := cstr_append hfront (text ++ "\r\n".toList)
  simp only [List.append_assoc] at happend
  rw [mailMessage]
  simpa using happend

theorem stepLine_mailMessage (huser : ',' ∉ user) (hnul : '\x00' ∉ user) (digest : Str → Fin 16 → Fin 256) (text : Str) :
    (store.stepLine capacity (cstr (mailMessage digest user text)) user)["pwd".toList]? =
      (store user)["pwd".toList]? := by
  have hfilename : ',' ∉ "##".toList ++ hashToMD5 digest text := by
    have hdigits : ',' ∉ hashToMD5 digest text := notMem_hashToMD5 (by decide) digest text
    simp [hdigits]
  have hcommand : parseCommand (cstr (mailMessage digest user text)) = .ok "put".toList := by
    rw [cstr_mailMessage hnul]
    exact parseCommand_append "put".toList (by decide) (by decide) _
  have hrequest : writeRequest "put".toList (cstr (mailMessage digest user text)) =
      some (.ok (some (.put user ("##".toList ++ hashToMD5 digest text) (cstr (text ++ "\r\n".toList))))) := by
    rw [cstr_mailMessage hnul, ← putRequest_append huser hfilename]
    rfl
  rw [Store.stepLine, requested_of_writeRequest hcommand hrequest]
  exact Store.step_put_of_ne fun heq => absurd (congrArg (·.head?) heq) (by simp)

/-! ### The login -/

/-- The reply to a get of the password. -/
def pwdReply (store : Store) (user : Str) : Str :=
  (Store.reply true store (.get user "pwd".toList 0)).flatten ++ "!!!DONE!!!\r\n".toList

/-- A get of this user can be answered. -/
structure Ready (s : Chunkserver) (user : Str) : Prop where
  filled : ¬ s.lru.Filled
  loads : s.lru.Roomy user ∨ s.lru.InOrder ∧ s.lru.Spare s.lru.tablets

theorem asksGet_getPwdMessage (huser : ',' ∉ user) (hnul : '\x00' ∉ user) :
    cstr (getPwdMessage user) = getPwdMessage user ∧ AsksGet (getPwdMessage user) user "pwd".toList := by
  have hline : getPwdMessage user = "get ".toList ++ (user ++ ',' :: ("pwd".toList ++ "\r\n".toList)) := by
    rw [getPwdMessage, List.append_assoc]
    rfl
  refine ⟨cstr_of_notMem (by simp [getPwdMessage, hnul]), ?_, ?_⟩
  · rw [hline]
    exact parseCommand_append "get".toList (by decide) (by decide) _
  · rw [hline]
    exact getRequest_append huser _

theorem repliesOn_getPwdMessage (huser : ',' ∉ user) (hnul : '\x00' ∉ user) (h : Holds s.lru capacity store)
    (hready : Ready s user) : ∃ depth, ∀ fuel commFd, depth ≤ fuel →
      ∃ t, s.worker fuel commFd (cstr (getPwdMessage user)) = .ok t ∧ repliesOn commFd s t = pwdReply store user := by
  have hroom : s.lru.Roomy user ∨ s.lru.InOrder := hready.loads.imp_right And.left
  have hspare : s.lru.Roomy user ∨ s.lru.Spare s.lru.tablets := hready.loads.imp_right And.right
  obtain ⟨hcstr, hcommand, hrequest⟩ := asksGet_getPwdMessage huser hnul
  obtain ⟨depth, hload⟩ := h.good.loadable hroom
  refine ⟨depth, fun fuel commFd hfuel => ?_⟩
  have hdelivers : Delivers _ (s.lru.get fuel user "pwd".toList commFd) _ := h.good.get hload
  obtain ⟨lru, hget, hfilled⟩ := hdelivers.returns ⟨hfuel, hspare⟩
  have hsent := h.good.sent_get hroom hget hfilled
  refine ⟨({ s with lru := lru } : Chunkserver).sendDone commFd, ?_, ?_⟩
  · rw [worker_get (by rw [hcstr, hcstr]; exact hcommand), hcstr, hcstr, hrequest]
    change ((s.lru.get fuel user "pwd".toList commFd >>= _) >>= _) = _
    rw [hget]
    rfl
  · have hreply : Store.reply s.lru.isPrimary s.lru.filesOf (.get user "pwd".toList commFd) =
        Store.reply true store (.get user "pwd".toList 0) := by
      rw [h.filesOf]
      rfl
    rw [hreply] at hsent
    change (((lru.sent ++ [(commFd, "!!!DONE!!!\r\n".toList)]).drop s.lru.sent.length).filter _).flatMap Prod.snd = _
    rw [hsent, List.append_assoc, List.drop_left, pwdReply]
    simp [List.filter_append, List.filter_map, Function.comp_def, List.flatMap_map]

theorem isLoginValid_eq (hrun : s.worker fuel commFd (cstr (getPwdMessage user)) = .ok t) (q : Str) :
    (isLoginValid fuel s commFd user q).map Prod.fst =
      readRep fuel (getPwdMessage user) (repliesOn commFd s t) >>= fun rep => matchPwd rep q := by
  rw [isLoginValid, sendToBackend, hrun, Run.ok_bind]
  cases readRep fuel (getPwdMessage user) (repliesOn commFd s t) with
  | error => rfl
  | ok rep =>
      change Except.map Prod.fst (matchPwd rep q >>= fun valid => .ok (valid, t)) = matchPwd rep q
      cases matchPwd rep q <;> rfl

theorem getPwdMessage_take (user : Str) : (getPwdMessage user).take 7 ≠ "getlist".toList := by
  intro heq
  have hget : ((getPwdMessage user).take 7).take 4 = "get ".toList := by rw [List.take_take]; rfl
  rw [heq] at hget
  exact absurd hget (by decide)

/-- No reply without the password lets anybody in. -/
theorem readRep_missing (hview : (store user)["pwd".toList]? = none) (q : Str) :
    (readRep (fuel + 1) (getPwdMessage user) (pwdReply store user) >>= fun rep => matchPwd rep q) = .ok false := by
  have hreply : Store.reply true store (.get user "pwd".toList 0) = [Store.missing (store user)] := by
    rw [Store.reply, hview]
  have hline : ∃ line : Str, Store.missing (store user) = line ++ "\r\n".toList ∧ '\r' ∉ line ∧
      line ≠ "!!!DONE!!!".toList ∧ line.take 3 ≠ "+OK".toList := by
    rw [Store.missing]
    split
    · exact ⟨"-ERR User not exist".toList, by decide⟩
    · exact ⟨"-ERR No such file".toList, by decide⟩
  obtain ⟨line, hmissing, hreturn, hending, hstatus⟩ := hline
  rw [pwdReply, hreply, List.flatten_singleton, hmissing, readRep_line (getPwdMessage_take user) hreturn hending,
    Run.ok_bind, matchPwd]
  exact if_neg hstatus

theorem readRep_pwd (hview : (store user)["pwd".toList]? = some (password ++ "\r\n".toList)) (hreturn : '\r' ∉ password)
    (hending : password ≠ "!!!DONE!!!".toList) (q : Str) :
    (readRep (fuel + 2) (getPwdMessage user) (pwdReply store user) >>= fun rep => matchPwd rep q) =
      .ok (password = q) := by
  have hreply : Store.reply true store (.get user "pwd".toList 0) =
      ["+OK value as follows: ".toList ++ "\r\n".toList, password ++ "\r\n".toList] := by
    rw [Store.reply, hview]
    rfl
  have hflat : pwdReply store user = "+OK value as follows: ".toList ++ "\r\n".toList ++
      (password ++ "\r\n".toList ++ "!!!DONE!!!\r\n".toList) := by
    rw [pwdReply, hreply, List.flatten_cons, List.flatten_singleton, List.append_assoc]
  rw [hflat, readRep_lines (getPwdMessage_take user) (by decide) (by decide) hreturn hending, Run.ok_bind, matchPwd]
  rfl

/-- **A mail does not change a password.** Two runs that differ in a mail and lose nothing answer every later
login alike, and as the password that is stored says. -/
theorem isLoginValid_mail {digest : Str → Fin 16 → Fin 256} {text : Str} (hnonneg : 0 ≤ capacity)
    (hsmall : capacity ≤ intMax) (huser : ',' ∉ user) (hnul : '\x00' ∉ user)
    (hearlier : Run.Runs (Serves Harmless) (fresh capacity true fd) earlier s)
    (hmail : Serves Harmless s (commFd, mailMessage digest user text) m)
    (hwith : Run.Runs (Serves Harmless) m later t) (hwithout : Run.Runs (Serves Harmless) s later t')
    (hlater : ∀ message ∈ later, Spares user message) (hready : Ready t user) (hready' : Ready t' user) :
    ∃ depth, ∀ fuel loginFd q, depth ≤ fuel →
      (isLoginValid fuel t loginFd user q).map Prod.fst = (isLoginValid fuel t' loginFd user q).map Prod.fst ∧
      ∀ password, t'.lru.view user "pwd".toList = some (password ++ "\r\n".toList) → '\r' ∉ password →
        password ≠ "!!!DONE!!!".toList → (isLoginValid fuel t loginFd user q).map Prod.fst = .ok (password = q) := by
  have hfresh : (fresh capacity true fd).lru.Filled ∨ Holds (fresh capacity true fd).lru capacity Store.empty :=
    Or.inr ⟨good_fresh hnonneg hsmall, funext filesOf_fresh, rfl⟩
  obtain ⟨store, hs⟩ : ∃ store, s.lru.Filled ∨ Holds s.lru capacity store := by
    refine hearlier.invariant (P := fun _ s => ∃ store, s.lru.Filled ∨ Holds s.lru capacity store) ⟨_, hfresh⟩ ?_
    exact fun _ _ message _ ⟨store, h⟩ hserves => ⟨_, hserves.holds_harmless h⟩
  have hm := hmail.holds_harmless hs
  obtain ⟨after, hafter, hsame⟩ := (holds_of_spared hwith hlater hm).resolve_left hready.filled
  obtain ⟨after', hafter', hsame'⟩ := (holds_of_spared hwithout hlater hs).resolve_left hready'.filled
  have hpwd : (after user)["pwd".toList]? = (after' user)["pwd".toList]? := by
    rw [hsame, stepLine_mailMessage huser hnul, hsame']
  obtain ⟨depth, hreads⟩ := repliesOn_getPwdMessage huser hnul hafter hready
  obtain ⟨depth', hreads'⟩ := repliesOn_getPwdMessage huser hnul hafter' hready'
  refine ⟨depth + depth' + 2, fun fuel loginFd q hfuel => ?_⟩
  obtain ⟨u, hworker, hreplies⟩ := hreads fuel loginFd (by omega)
  obtain ⟨u', hworker', hreplies'⟩ := hreads' fuel loginFd (by omega)
  obtain ⟨fuel, rfl⟩ : ∃ k, fuel = k + 2 := ⟨fuel - 2, by omega⟩
  rw [isLoginValid_eq hworker, isLoginValid_eq hworker', hreplies, hreplies']
  refine ⟨?_, fun password hview hreturn hending => ?_⟩
  · cases hview : (after user)["pwd".toList]? with
    | none => rw [readRep_missing hview, readRep_missing (hpwd ▸ hview)]
    | some value =>
        have hsameReply : pwdReply after user = pwdReply after' user := by
          rw [pwdReply, pwdReply, Store.reply, Store.reply, hview, ← hpwd, hview]
        rw [hsameReply]
  · rw [view, hafter'.filesOf] at hview
    exact readRep_pwd (hpwd.trans hview) hreturn hending q

theorem spares_of_all (h : (later.all fun message =>
      (requested (cstr message.2)).all fun request => decide ((request 0 0).user ≠ user)) = true) :
    ∀ message ∈ later, Spares user message := by
  intro message hmem request hrequested
  have hmessage := List.all_eq_true.mp h message hmem
  rw [hrequested, Option.all_some, decide_eq_true_eq] at hmessage
  exact hmessage

/-- A mail between a registration and three requests. With the mail the put evicts the user, the login brings it back and
the last request evicts it again; without, nobody is evicted. -/
theorem isLoginValid_mail_three_requests : ∃ t t' : Chunkserver,
    t.lru.virmemMeta["u".toList]? = some [[0, 70, 53]] ∧ t'.lru.virmemMeta["u".toList]? = none ∧
    ∃ depth, ∀ fuel loginFd q, depth ≤ fuel →
      (isLoginValid fuel t loginFd "u".toList q).map Prod.fst = (isLoginValid fuel t' loginFd "u".toList q).map Prod.fst ∧
      (isLoginValid fuel t loginFd "u".toList q).map Prod.fst = .ok ("p".toList = q) := by
  let digest : Str → Fin 16 → Fin 256 := fun _ _ => 0
  let mail : Int × Str := (4, mailMessage digest "u".toList "hi\r\n.\r\n".toList)
  let later : List (Int × Str) :=
    [(3, "put v,f,xxxxxxxxxxxx\r\n".toList), (3, "get u,pwd\r\n".toList), (3, "get v,f\r\n".toList)]
  let run : Except Fault (Chunkserver × Chunkserver × Chunkserver × Chunkserver) := do
    let s ← serveAll Keeping (fresh 20 true 9) [(3, addUserMessage "u".toList "p".toList)]
    let m ← (if admits Keeping s mail then s.worker 5 mail.1 mail.2 else .error .exited)
    let t ← serveAll Keeping m later
    let t' ← serveAll Keeping s later
    .ok (s, m, t, t')
  have hfold : (match run with
      | .ok (_, _, t, t') => decide (t.lru.chunkInfo .virtualMemory = [0, 123] ∧
          t'.lru.chunkInfo .virtualMemory = [0, 0] ∧ t.lru.Tracked ∧
          t.lru.weigh (fun files => (rowOf files).length) t.lru.tablets = 17 ∧ t'.lru.Roomy "u".toList ∧
          t'.lru.view "u".toList "pwd".toList = some "p\r\n".toList ∧
          t.lru.virmemMeta["u".toList]? = some [[0, 70, 53]] ∧ t'.lru.virmemMeta["u".toList]? = none)
      | .error _ => false) = true := by decide +kernel
  cases hrun : run with
  | error fault => exact absurd hfold (by rw [hrun]; exact Bool.false_ne_true)
  | ok states =>
      obtain ⟨s, m, t, t'⟩ := states
      rw [hrun, decide_eq_true_eq] at hfold
      obtain ⟨hinfo, hinfo', htracked, hweigh, hroomy', hpwd, hvirmem, hvirmem'⟩ := hfold
      obtain ⟨_, hs, hrun⟩ := Run.bind_eq_ok.mp hrun
      obtain ⟨_, hm, hrun⟩ := Run.bind_eq_ok.mp hrun
      obtain ⟨_, ht, hrun⟩ := Run.bind_eq_ok.mp hrun
      obtain ⟨_, ht', hrun⟩ := Run.bind_eq_ok.mp hrun
      cases hrun
      have hharmless : ∀ (lru : LRUCache) op, lru.Keeping op → lru.Harmless op := fun _ _ h => Or.inl h.preserving
      have hruns : ∀ (requests : List (Int × Str)) s s', serveAll Keeping s requests = .ok s' →
          Run.Runs (Serves Harmless) s requests s' := fun requests s s' hserve =>
        (runs_of_serveAll hserve).mono fun _ _ _ h => h.mono hharmless
      have hdelivered : Serves Keeping s mail m := by
        split at hm
        · next hadmits => exact serves_of_admits hadmits hm
        · exact absurd hm (fun h => by cases h)
      have hspare : t.lru.Spare t.lru.tablets := ⟨123, hinfo, by rw [hweigh]; decide⟩
      obtain ⟨depth, hlogin⟩ := isLoginValid_mail (by decide) (by decide) (by decide) (by decide)
        (hruns _ _ _ hs) (hdelivered.mono hharmless) (hruns _ _ _ ht) (hruns _ _ _ ht') (spares_of_all (by decide +kernel))
        ⟨not_filled_of_chunkInfo hinfo, Or.inr ⟨htracked.inOrder, hspare⟩⟩ ⟨not_filled_of_chunkInfo hinfo', Or.inl hroomy'⟩
      refine ⟨t, t', hvirmem, hvirmem', depth, fun fuel loginFd q hfuel => ?_⟩
      obtain ⟨hsame, hstored⟩ := hlogin fuel loginFd q hfuel
      exact ⟨hsame, hstored "p".toList hpwd (by decide) (by decide)⟩

/-- A mail of two lines for a user with a password, and a put that evicts that user. -/
theorem not_isLoginValid_mail :
    ¬ ∀ (digest : Str → Fin 16 → Fin 256) (data : List Str) (last user password rcvr : Str)
        (later : List (Int × Str)) (s m t t' : Chunkserver), ',' ∉ user → ',' ∉ password →
      Run.Runs (Serves fun _ => CommaFree) (fresh 100 true 9) [(3, addUserMessage user password)] s →
      localRcvr data = some rcvr → userName rcvr = user → (∃ fuel, s.handleSend digest fuel 4 data last = .ok m) →
      Run.Runs (Serves fun _ => CommaFree) m later t → Run.Runs (Serves fun _ => CommaFree) s later t' →
      (∀ message ∈ later, Spares user message) → ¬ t.lru.Filled → ¬ t'.lru.Filled →
      ∀ fuel q answer answer', (isLoginValid fuel t 5 user q).map Prod.fst = .ok answer →
        (isLoginValid fuel t' 5 user q).map Prod.fst = .ok answer' → answer = answer' := by
  intro hall
  let digest : Str → Fin 16 → Fin 256 := fun _ _ => 0
  let data : List Str := ["To:<u@localhost.com>\r\n".toList, "a,pwd,evil\r\n".toList]
  let later : List (Int × Str) := [(3, "put v,f,".toList ++ List.replicate 58 'x' ++ "\r\n".toList)]
  let condition : LRUCache → Op → Prop := fun _ => CommaFree
  let run : Except Fault (Chunkserver × Chunkserver × Chunkserver × Chunkserver) := do
    let s ← serveAll condition (fresh 100 true 9) [(3, addUserMessage "u".toList "p".toList)]
    let m ← s.handleSend digest 5 4 data ".\r\n".toList
    let t ← serveAll condition m later
    let t' ← serveAll condition s later
    .ok (s, m, t, t')
  have hfold : (match run with
      | .ok (_, _, t, t') => decide (t.lru.chunkInfo .virtualMemory = [0, 83] ∧
          t'.lru.chunkInfo .virtualMemory = [0, 0] ∧
          (isLoginValid 5 t 5 "u".toList "evil".toList).map Prod.fst = .ok true ∧
          (isLoginValid 5 t' 5 "u".toList "evil".toList).map Prod.fst = .ok false)
      | .error _ => false) = true := by decide +kernel
  cases hrun : run with
  | error fault => exact absurd hfold (by rw [hrun]; exact Bool.false_ne_true)
  | ok states =>
      obtain ⟨s, m, t, t'⟩ := states
      rw [hrun, decide_eq_true_eq] at hfold
      obtain ⟨hinfo, hinfo', hlogin, hlogin'⟩ := hfold
      obtain ⟨_, hs, hrun⟩ := Run.bind_eq_ok.mp hrun
      obtain ⟨_, hm, hrun⟩ := Run.bind_eq_ok.mp hrun
      obtain ⟨_, ht, hrun⟩ := Run.bind_eq_ok.mp hrun
      obtain ⟨_, ht', hrun⟩ := Run.bind_eq_ok.mp hrun
      cases hrun
      have hsame := hall digest data ".\r\n".toList "u".toList "p".toList "u@localhost.com".toList later s m t t'
        (by decide) (by decide) (runs_of_serveAll hs) (by decide +kernel) (by decide +kernel) ⟨5, hm⟩ (runs_of_serveAll ht)
        (runs_of_serveAll ht') (spares_of_all (by decide +kernel)) (not_filled_of_chunkInfo hinfo)
        (not_filled_of_chunkInfo hinfo') 5 "evil".toList true false hlogin hlogin'
      exact absurd hsame (by decide)

end Chunkserver

end PennCloud
