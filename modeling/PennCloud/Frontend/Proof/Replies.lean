import PennCloud.Frontend.Reply
import PennCloud.Frontend.Proof.Cookies
import PennCloud.Frontend.Proof.Strangers
import PennCloud.Kv.Proof.Filled

/-!
# Replies on the wire

Every page gives the length of its body in a header, and a page without that header has no body. So a client that reads the head to
its empty line and then as many bytes as the head says finds the response that was written. A file that is not there has -1 for its
length, and a name in a cookie may have a line end in it; nothing else keeps the client from it.
-/

namespace PennCloud.Frontend

open Chunkserver Std

variable {around : Outside} {fuel : Nat} {commFd : Int} {site site' : Site} {req : Request} {response : Response} {length : Option Int}
  {line rest : Str} {chunks left : List Str} {socket : Socket}

/-! ### What is read of a request -/

theorem notMem_readLineFrom {n : Nat} {front : Str} (hfront : '\n' ∉ front) (h : readLineFrom n front chunks = .ok (line, left)) :
    '\n' ∉ line := by
  have hsnoc {text : Str} {c : Char} (htext : '\n' ∉ text) (hc : c ≠ '\n') : '\n' ∉ text ++ [c] := by
    intro hmem
    rcases List.mem_append.mp hmem with hmem | hmem
    · exact htext hmem
    · exact hc (List.mem_singleton.mp hmem).symm
  induction n generalizing front chunks with
  | zero => cases h
  | succ n ih =>
      rw [readLineFrom] at h
      split at h
      · next c chunks' _ =>
          split at h
          · split at h
            · split at h
              · obtain ⟨rfl, _⟩ := Prod.mk.inj (Except.ok.inj h)
                exact hfront
              · exact ih (hsnoc hfront (by decide)) h
            · obtain ⟨rfl, _⟩ := Prod.mk.inj (Except.ok.inj h)
              exact hsnoc hfront (by decide)
          · split at h
            · obtain ⟨rfl, _⟩ := Prod.mk.inj (Except.ok.inj h)
              exact hfront
            · next hne => exact ih (hsnoc hfront hne) h
      · obtain ⟨rfl, _⟩ := Prod.mk.inj (Except.ok.inj h)
        exact hfront

/-- The values of cookies have no NUL. -/
def CleanValues (cookies : Map Str) : Prop := ∀ name value : Str, cookies[name]? = some value → '\x00' ∉ value

theorem CleanValues.readHeader {cookies cookies' : Map Str} {contentLength contentLength' : Int} (h : CleanValues cookies)
    (hread : readHeader cookies contentLength line = .ok (cookies', contentLength')) : CleanValues cookies' := by
  obtain ⟨_, _, hread⟩ := Run.bind_eq_ok.mp hread
  intro name value hget
  by_cases hcookie : line.take 8 = "Cookie: ".toList
  · rw [if_pos hcookie] at hread
    obtain ⟨cookies'', hcookies, hread⟩ := Run.bind_eq_ok.mp hread
    obtain ⟨rfl, _⟩ := Prod.mk.inj (Except.ok.inj hread)
    rcases mem_readCookies hcookies hget with hold | ⟨token, _, hpair, _⟩
    · exact h name value hold
    · intro hnul
      have hvalue : value ∈ split (cstr token) '=' := by
        rw [hpair]
        exact List.mem_cons_of_mem _ List.mem_cons_self
      exact notMem_cstr token (mem_split hvalue hnul)
  · rw [if_neg hcookie] at hread
    obtain ⟨rfl, _⟩ := Prod.mk.inj (Except.ok.inj hread)
    exact h name value hget

theorem CleanValues.readHeaders {n : Nat} {cookies cookies' : Map Str} {contentLength contentLength' : Int} (h : CleanValues cookies)
    (hread : readHeaders n cookies contentLength line chunks = .ok (cookies', contentLength', left)) : CleanValues cookies' := by
  induction n generalizing cookies contentLength line chunks with
  | zero => cases hread
  | succ n ih =>
      rw [Frontend.readHeaders] at hread
      split at hread
      · obtain ⟨rfl, _⟩ := Prod.mk.inj (Except.ok.inj hread)
        exact h
      · obtain ⟨⟨cookies'', contentLength''⟩, hheader, hread⟩ := Run.bind_eq_ok.mp hread
        obtain ⟨⟨line', chunks'⟩, _, hread⟩ := Run.bind_eq_ok.mp hread
        exact ih (h.readHeader hheader) hread

/-- What holds of a request that has been read from a connection. -/
structure OffTheWire (req : Request) : Prop where
  version : '\x00' ∉ req.httpVersion ∧ '\n' ∉ req.httpVersion
  cookies : CleanValues req.cookies

theorem offTheWire_of_read {malloced : Nat → Char} {uninitialised : Int}
    (h : Request.read malloced uninitialised socket = .ok (some req, left)) : OffTheWire req := by
  obtain ⟨⟨line, chunks⟩, hline, h⟩ := Run.bind_eq_ok.mp h
  dsimp only at h
  split at h
  · cases h
  split at h
  · next method path version htokens =>
      obtain ⟨_, _, h⟩ := Run.bind_eq_ok.mp h
      obtain ⟨_, _, h⟩ := Run.bind_eq_ok.mp h
      obtain ⟨_, _, h⟩ := Run.bind_eq_ok.mp h
      obtain ⟨⟨cookies, contentLength, chunks'⟩, hheaders, h⟩ := Run.bind_eq_ok.mp h
      dsimp only at h
      have hreq : req.httpVersion = version ∧ req.cookies = cookies := by
        split at h
        · obtain ⟨_, _, h⟩ := Run.bind_eq_ok.mp h
          obtain rfl := Option.some.inj (Prod.mk.inj (Except.ok.inj h)).1
          exact ⟨rfl, rfl⟩
        · obtain rfl := Option.some.inj (Prod.mk.inj (Except.ok.inj h)).1
          exact ⟨rfl, rfl⟩
      have hversion : version ∈ split (cstr line) ' ' := by
        rw [htokens]
        exact List.mem_cons_of_mem _ (List.mem_cons_of_mem _ List.mem_cons_self)
      refine ⟨hreq.1 ▸ ⟨notMem_token hversion, fun hmem => ?_⟩, hreq.2 ▸ ?_⟩
      · exact notMem_readLineFrom List.not_mem_nil hline ((List.takeWhile_prefix _).subset (mem_split hversion hmem))
      · exact CleanValues.readHeaders (fun name value hget => by simp at hget) hheaders
  · cases h

/-! ### The head of a response -/

/-- A header that a page sets. -/
inductive IsHeader : Str → Str → Prop where
  | connection : IsHeader "Connection: ".toList "close".toList
  | contentType {value : Str} (h : '\x00' ∉ value ∧ '\n' ∉ value) : IsHeader "Content-Type: ".toList value
  | contentLength (n : Int) : IsHeader "Content-Length: ".toList (toStr n)
  | setCookie {value : Str} (h : '\x00' ∉ value) : IsHeader "Set-Cookie: ".toList value

/-- The headers are those that pages set, and the body is as long as its header says. -/
structure Framed (version : Str) (response : Response) (length : Option Int) : Prop where
  version : response.httpVersion = version
  status : '\x00' ∉ response.status ∧ '\n' ∉ response.status
  headers : ∀ name value : Str, response.headers[name]? = some value → IsHeader name value
  counted : response.headers["Content-Length: ".toList]? = length.map toStr
  body : response.body.length = (length.getD 0).toNat

theorem getElem?_insert_of_ne {headers : Map Str} {name name' : Str} (hne : name ≠ name') (value : Str) :
    (headers.insert name value)[name']? = headers[name']? := by
  rw [SortedMap.getElem?_insert_eq, if_neg hne]

theorem isHeader_insert {headers : Map Str} {name value : Str} (h : ∀ name value : Str, headers[name]? = some value → IsHeader name value)
    (hheader : IsHeader name value) : ∀ name' value' : Str, (headers.insert name value)[name']? = some value' → IsHeader name' value' := by
  intro name' value' hget
  rw [SortedMap.getElem?_insert_eq] at hget
  split at hget
  · next heq =>
      subst heq
      obtain rfl := Option.some.inj hget
      exact hheader
  · exact h name' value' hget

theorem framed_start (req : Request) : Framed req.httpVersion (Response.start req) none where
  version := rfl
  status := ⟨List.not_mem_nil, List.not_mem_nil⟩
  headers := isHeader_insert (fun name value hget => by simp at hget) .connection
  counted := by
    rw [Response.start, getElem?_insert_of_ne (by decide)]
    exact ExtTreeMap.getElem?_empty
  body := rfl

variable {version : Str} {type : String}

theorem Framed.typed (h : Framed version response length) (htype : '\x00' ∉ type.toList ∧ '\n' ∉ type.toList) :
    Framed version (response.typed type) length where
  version := h.version
  status := (by decide : '\x00' ∉ "200 OK".toList ∧ '\n' ∉ "200 OK".toList)
  headers := isHeader_insert h.headers (.contentType htype)
  counted := (getElem?_insert_of_ne (by decide) _).trans h.counted
  body := h.body

theorem Framed.withBody (h : Framed version response length) (body : Str) :
    Framed version (response.withBody body) (some (body.length : Int)) where
  version := h.version
  status := h.status
  headers := isHeader_insert h.headers (.contentLength _)
  counted := by
    rw [Response.withBody, SortedMap.getElem?_insert_eq, if_pos rfl]
    rfl
  body := (Int.toNat_natCast _).symm

theorem Framed.cookie {username : Str} (h : Framed version response length) (hname : '\x00' ∉ username) :
    Framed version { response with headers := response.headers.insert "Set-Cookie: ".toList ("sessionid=".toList ++ username) } length where
  version := h.version
  status := h.status
  headers := isHeader_insert h.headers (.setCookie fun hmem => (List.mem_append.mp hmem).elim (by decide) hname)
  counted := (getElem?_insert_of_ne (by decide) _).trans h.counted
  body := h.body

/-- The response is framed, and its length is that of a body. -/
def Counted (req : Request) (answer : Response × Site) : Prop :=
  ∃ length, Framed req.httpVersion answer.1 length ∧ ∀ n ∈ length, 0 ≤ n

theorem counted_bare (req : Request) (site : Site) : Counted req (Response.start req, site) := ⟨none, framed_start req, nofun⟩

theorem counted_typed (req : Request) (site : Site) : Counted req ((Response.start req).typed "text/html", site) :=
  ⟨none, (framed_start req).typed (by decide), nofun⟩

theorem counted_page (req : Request) (htype : '\x00' ∉ type.toList ∧ '\n' ∉ type.toList) (body : Str) (site : Site) :
    Counted req (((Response.start req).typed type).withBody body, site) := by
  refine ⟨_, ((framed_start req).typed htype).withBody body, fun n hn => ?_⟩
  rw [← Option.some.inj hn]
  exact Int.natCast_nonneg _

/-! ### The pages -/

namespace Site

theorem counted_shows {filename : String} (hrun : site.shows req filename = .ok response) : Counted req (response, site') := by
  obtain ⟨body, _, hrun⟩ := Run.bind_eq_ok.mp hrun
  obtain rfl := Except.ok.inj hrun
  exact counted_page req (by decide) body site'

theorem counted_userHome {username : Str} (h : Framed req.httpVersion response length) (hname : '\x00' ∉ username) :
    Run.Yields (fun answer => Counted req (answer, site')) (site.userHome response username) := by
  refine .bind fun body _ => .ok ⟨_, (h.withBody _).cookie hname, fun n hn => ?_⟩
  rw [← Option.some.inj hn]
  exact Int.natCast_nonneg _

theorem notMem_credentials {username password : Str} (hrun : credentials req = .ok (username, password)) : '\x00' ∉ username := by
  obtain ⟨first, hfirst, hrun⟩ := Run.bind_eq_ok.mp hrun
  obtain ⟨name, hname, hrun⟩ := Run.bind_eq_ok.mp hrun
  obtain ⟨_, _, hrun⟩ := Run.bind_eq_ok.mp hrun
  obtain ⟨_, _, hrun⟩ := Run.bind_eq_ok.mp hrun
  obtain ⟨rfl, _⟩ := Prod.mk.inj (Except.ok.inj hrun)
  intro hnul
  have hmem := mem_split (List.mem_of_getElem? (LRUCache.atIdx_eq_ok.mp hname)) hnul
  exact notMem_cstr req.body (mem_split (List.mem_of_getElem? (LRUCache.atIdx_eq_ok.mp hfirst)) hmem)

theorem notMem_session {id : Str} (hreq : OffTheWire req) (hsession : site.isAlreadyLogin req.cookies = some id) : '\x00' ∉ id := by
  rw [isAlreadyLogin] at hsession
  split at hsession
  · next id' hget =>
      split at hsession
      · obtain rfl := Option.some.inj hsession
        exact hreq.cookies _ _ hget
      · cases hsession
  · cases hsession

theorem counted_reg : Run.Yields (Counted req) (site.reg fuel commFd req) := by
  unfold reg
  split
  · exact .bind fun response hshows => .ok (counted_shows hshows)
  split
  · refine .bind fun names _ => .bind fun found _ => ?_
    dsimp only
    split
    · exact .bind fun response hshows => .ok (counted_shows hshows)
    · exact .bind fun _ _ => .bind fun response hshows => .ok (counted_shows hshows)
  · exact .ok (counted_typed req site)

theorem counted_login (hreq : OffTheWire req) : Run.Yields (Counted req) (site.login fuel commFd req) := by
  have htyped : Framed _ ((Response.start req).typed "text/html") _ := (framed_start req).typed (by decide)
  unfold login
  dsimp only
  split
  · exact .bind fun response hshows => .ok (counted_shows hshows)
  split
  · refine .bind fun names hnames => .bind fun found _ => ?_
    split
    · exact .bind fun response hhome => .ok (counted_userHome htyped (notMem_credentials hnames) _ hhome)
    · refine .bind fun response hshows => ?_
      split
      · obtain ⟨length, hframed, _⟩ : Counted req (response, site) := counted_shows hshows
        exact .bind fun response hhome => .ok (counted_userHome hframed (notMem_credentials hnames) _ hhome)
      · exact .ok (counted_shows hshows)
  · split
    · next id hsession => exact .bind fun response hhome => .ok (counted_userHome htyped (notMem_session hreq hsession) _ hhome)
    · exact .ok (counted_typed req site)

theorem counted_handleUpload : Run.Yields (Counted req) (site.handleUpload fuel commFd req) :=
  .bind fun _ _ => .bind fun _ _ => .bind fun _ _ => .bind fun _ _ => .bind fun _ _ => .bind fun _ hshows => .ok (counted_shows hshows)

theorem counted_deleteFile : Run.Yields (Counted req) (site.deleteFile fuel commFd req) :=
  .bind fun _ _ => .bind fun _ _ => .bind fun _ _ => .bind fun _ _ => .bind fun body _ => .ok (counted_page req (by decide) _ _)

theorem counted_createNewFolder : Run.Yields (Counted req) (site.createNewFolder req) :=
  .bind fun _ _ => .bind fun _ _ => .bind fun _ _ => .ok (counted_page req (by decide) _ _)

theorem counted_renameFile : Run.Yields (Counted req) (site.renameFile req) :=
  .bind fun _ _ => .bind fun _ _ => .bind fun _ _ => .ok (counted_page req (by decide) _ _)

theorem counted_moveFile : Run.Yields (Counted req) (site.moveFile req) :=
  .bind fun _ _ => .bind fun _ _ => .bind fun _ _ => .ok (counted_page req (by decide) _ _)

theorem counted_deleteFolder : Run.Yields (Counted req) (site.deleteFolder req) :=
  .bind fun _ _ => .bind fun _ _ => .ok (counted_page req (by decide) _ _)

theorem counted_download : Run.Yields (Counted req) (site.download fuel commFd req) := by
  refine .bind fun _ _ => .bind fun _ _ => .bind fun _ _ => ?_
  dsimp only
  split
  · exact .bind fun _ _ => .ok (counted_page req (by decide) _ _)
  · exact .bind fun _ _ => .ok (counted_page req (by decide) _ _)

theorem counted_inbox : Run.Yields (Counted req) (site.inbox fuel commFd req) :=
  .bind fun _ _ => .bind fun _ _ => .ok (counted_page req (by decide) _ _)

theorem counted_viewEmail : Run.Yields (Counted req) (site.viewEmail fuel commFd req) :=
  .bind fun _ _ => .bind fun _ _ => .bind fun _ _ => .ok (counted_page req (by decide) _ _)

theorem counted_forwardEmail : Run.Yields (Counted req) (site.forwardEmail fuel commFd req) :=
  .bind fun _ _ => .bind fun _ _ => .bind fun _ _ => .ok (counted_page req (by decide) _ _)

theorem counted_replyEmail : Run.Yields (Counted req) (site.replyEmail fuel commFd req) :=
  .bind fun _ _ => .bind fun _ _ => .bind fun _ _ => .ok (counted_page req (by decide) _ _)

theorem counted_deleteEmail {ii : Int} : Run.Yields (Counted req) (site.deleteEmail ii fuel commFd req) :=
  .bind fun _ _ => .bind fun _ _ => .bind fun _ _ => .bind fun _ _ => .bind fun _ hshows => .ok (counted_shows hshows)

theorem counted_handleSendEmail {ii : Int} {currTime : Str} :
    Run.Yields (fun sent => Counted req (sent.2, site)) (site.handleSendEmail ii currTime req) :=
  .bind fun _ _ => .bind fun _ hshows => .ok (counted_shows hshows)

theorem counted_adminConsole :
    Run.Yields (fun answer => Counted req (answer.1, answer.2.2)) (site.adminConsole around fuel commFd req) :=
  .bind fun _ _ => .bind fun _ _ => .bind fun _ _ => .bind fun _ _ => .ok (counted_page req (by decide) _ _)

theorem counted_file {filename : Str} : Run.Yields (fun response => Counted req (response, site)) (site.file req filename) :=
  .bind fun _ _ => .bind fun _ _ => .ok (counted_page req (by decide) _ _)

/-- Every page but a download gives the length of its body. -/
theorem counted_answer (hreq : OffTheWire req) (hpage : site.page req ≠ .downloadFile) :
    Run.Yields (Counted req) (site.answer around fuel commFd req) := by
  rw [answer, respond]
  dsimp only
  split
  · exact .bind fun response hfile => .ok (counted_file _ hfile)
  · exact counted_reg
  · exact counted_login hreq
  · exact .bind fun response hshows => .ok (counted_shows hshows)
  · exact counted_handleUpload
  · exact counted_deleteFile
  · exact counted_login hreq
  · exact .ok (counted_bare req _)
  · exact .bind fun answer hconsole => .ok (counted_adminConsole _ hconsole)
  · next page =>
      generalize site.page req = page at hpage
      cases page with
      | downloadFile => exact absurd rfl hpage
      | download => exact counted_download
      | createNewFolder => exact counted_createNewFolder
      | renameFile => exact counted_renameFile
      | moveFile => exact counted_moveFile
      | deleteFolder => exact counted_deleteFolder
      | sendEmail => exact .bind fun response hshows => .ok (counted_shows hshows)
      | handleSendEmail => exact .bind fun sent hsent => .ok (counted_handleSendEmail _ hsent)
      | inbox => exact counted_inbox
      | viewEmail => exact counted_viewEmail
      | forwardEmail => exact counted_forwardEmail
      | replyEmail => exact counted_replyEmail
      | deleteEmail => exact counted_deleteEmail
      | adminConsole => exact .bind fun answer hconsole => .ok (counted_adminConsole _ hconsole)
      | file | reg | login | upload | handleUpload | deleteFile | logout | nothing => exact .ok (counted_bare req _)

/-! ### Downloads -/

/-- The path of a file that a request asks for. -/
def downloadPath (req : Request) : Str := (req.path.drop 10).take npos

theorem toInt32_le (n : Nat) : (toInt32 n).toNat ≤ n := by
  rw [toInt32, Int.bmod]
  split <;> omega

theorem length_fileBytes (files : Files) (filename : Str) :
    (fileBytes around files filename (fileSize around files filename).toNat).length = (fileSize around files filename).toNat := by
  unfold fileBytes fileSize
  cases files.ifstream filename with
  | none => rfl
  | some entry =>
      cases entry with
      | directory => exact (List.length_map _).trans List.length_range
      | file content => exact List.length_take_of_le (toInt32_le content.length)

theorem typeOfFile_clean (filePath : Str) : '\x00' ∉ (typeOfFile filePath).toList ∧ '\n' ∉ (typeOfFile filePath).toList := by
  unfold typeOfFile
  split
  · decide
  split
  · decide
  split
  · decide
  · decide

theorem framed_downloadFile (hrun : site.downloadFile around req = .ok (response, site')) :
    Framed req.httpVersion response (some (fileSize around site.files (downloadPath req))) := by
  obtain ⟨filePath, hpath, hrun⟩ := Run.bind_eq_ok.mp hrun
  obtain ⟨rfl, _⟩ := Prod.mk.inj (Except.ok.inj hrun)
  obtain rfl : downloadPath req = filePath := by
    rw [substr] at hpath
    split at hpath
    · cases hpath
    · exact Except.ok.inj hpath
  have htyped := (framed_start req).typed (typeOfFile_clean (downloadPath req))
  exact {
    version := rfl
    status := htyped.status
    headers := isHeader_insert htyped.headers (.contentLength _)
    counted := by
      rw [SortedMap.getElem?_insert_eq, if_pos rfl]
      rfl
    body := length_fileBytes site.files (downloadPath req) }

/-- A response is framed, and its length is that of a body unless a file was not there for a download. -/
theorem framed_answer (hreq : OffTheWire req) (hrun : site.answer around fuel commFd req = .ok (response, site')) :
    ∃ length, Framed req.httpVersion response length ∧
      ((∀ n ∈ length, 0 ≤ n) ↔ (site.page req = .downloadFile → 0 ≤ fileSize around site.files (downloadPath req))) := by
  by_cases hpage : site.page req = .downloadFile
  · rw [answer, respond, hpage] at hrun
    refine ⟨_, framed_downloadFile hrun, ?_⟩
    simp [hpage]
  · obtain ⟨length, hframed, hlength⟩ := counted_answer hreq hpage _ hrun
    exact ⟨length, hframed, iff_of_true hlength fun heq => absurd heq hpage⟩

end Site

/-! ### The client -/

theorem noBreak_iff_crlf : NoBreak line ↔ ¬ "\r\n".toList <:+: line := by
  constructor
  · rintro h ⟨front, back, rfl⟩
    exact h front back (List.append_assoc front _ back)
  · rintro h front back rfl
    exact h ⟨front, back, List.append_assoc front _ back⟩

theorem whole_iff_noBreak : Message.Whole "\r\n".toList line ↔ NoBreak line := by
  rw [noBreak_iff_crlf]
  refine Message.whole_iff (by decide) fun k hpos hlt => ?_
  obtain rfl : k = 1 := by
    have hlength : "\r\n".toList.length = 2 := rfl
    omega
  decide

theorem noBreak_of_newline (hline : '\n' ∉ line) : NoBreak line := by
  rintro front back rfl
  exact hline (by simp)

theorem noBreak_append_iff {name value : Str} (hname : '\r' ∉ name) : NoBreak (name ++ value) ↔ NoBreak value := by
  constructor
  · rintro h front back rfl
    exact h (name ++ front) back (List.append_assoc ..).symm
  · exact NoBreak.append hname

theorem IsHeader.notMem_nul {name value : Str} (h : IsHeader name value) : '\x00' ∉ name ++ value := by
  intro hmem
  cases h with
  | connection => exact absurd hmem (by decide)
  | contentType hvalue => exact (List.mem_append.mp hmem).elim (by decide) hvalue.1
  | contentLength n => exact (List.mem_append.mp hmem).elim (by decide) (notMem_toStr (by decide) (by decide))
  | setCookie hvalue => exact (List.mem_append.mp hmem).elim (by decide) hvalue

theorem IsHeader.ne_nil {name value : Str} (h : IsHeader name value) : name ++ value ≠ [] := by
  intro hnil
  have hname := (List.append_eq_nil_iff.mp hnil).1
  cases h <;> exact absurd hname (by decide)

/-- Only a cookie can have a line end in it. -/
theorem IsHeader.noBreak_iff {name value : Str} (h : IsHeader name value) :
    NoBreak (name ++ value) ↔ (name = "Set-Cookie: ".toList → NoBreak value) := by
  cases h with
  | connection => exact iff_of_true (noBreak_of_newline (by decide)) fun heq => absurd heq (by decide)
  | contentType hvalue =>
      refine iff_of_true (noBreak_of_newline fun hmem => ?_) fun heq => absurd heq (by decide)
      exact (List.mem_append.mp hmem).elim (by decide) hvalue.2
  | contentLength n =>
      refine iff_of_true (noBreak_of_newline fun hmem => ?_) fun heq => absurd heq (by decide)
      exact (List.mem_append.mp hmem).elim (by decide) (notMem_toStr (by decide) (by decide))
  | setCookie hvalue =>
      rw [noBreak_append_iff (by decide)]
      exact ⟨fun h _ => h, fun h => h rfl⟩

theorem IsHeader.eq_contentLength {name value : Str} (h : IsHeader name value)
    (htake : (name ++ value).take 16 = "Content-Length: ".toList) : name = "Content-Length: ".toList := by
  -- the names differ within nine bytes
  have hfront := congrArg (List.take 9) htake
  rw [List.take_take] at hfront
  cases h with
  | contentLength n => rfl
  | connection => exact absurd hfront (by decide)
  | contentType hvalue =>
      have hname : "Content-T".toList = "Content-L".toList := hfront
      exact absurd hname (by decide)
  | setCookie hvalue =>
      have hname : "Set-Cooki".toList = "Content-L".toList := hfront
      exact absurd hname (by decide)

theorem find?_eq_of_unique {α : Type} {p : α → Bool} {l : List α} {a : α} (hmem : a ∈ l) (ha : p a = true)
    (hunique : ∀ b ∈ l, p b = true → b = a) : l.find? p = some a := by
  cases hfind : l.find? p with
  | none => exact absurd ha (List.find?_eq_none.mp hfind a hmem)
  | some b => rw [hunique b (List.mem_of_find?_eq_some hfind) (List.find?_some hfind)]

theorem lengthIn_tail (h : Framed version response length) : lengthIn response.lines.tail = length := by
  have hget {header : Str × Str} (hmem : header ∈ response.headers.toList) : response.headers[header.1]? = some header.2 :=
    ExtTreeMap.mem_toList_iff_getElem?_eq_some.mp hmem
  have hcounted := h.counted
  rw [Response.lines, List.tail_cons, lengthIn]
  cases length with
  | none =>
      rw [List.find?_eq_none.mpr, Option.map_none]
      intro line hline
      obtain ⟨header, hheader, rfl⟩ := List.mem_map.mp hline
      rw [decide_eq_true_eq]
      intro htake
      rw [← (h.headers _ _ (hget hheader)).eq_contentLength htake, hget hheader] at hcounted
      cases hcounted
  | some n =>
      have hheader : ("Content-Length: ".toList, toStr n) ∈ response.headers.toList :=
        ExtTreeMap.mem_toList_iff_getElem?_eq_some.mpr hcounted
      rw [find?_eq_of_unique (List.mem_map.mpr ⟨_, hheader, rfl⟩)]
      · change some ((leadingInt (List.drop 16 ("Content-Length: ".toList ++ toStr n))).getD 0) = some n
        have hdrop : ("Content-Length: ".toList ++ toStr n).drop 16 = toStr n := List.drop_left' rfl
        rw [hdrop, leadingInt_toStr_nil, Option.getD_some]
      · exact decide_eq_true (List.take_left' rfl)
      · intro line hline htake
        obtain ⟨header, hheader', rfl⟩ := List.mem_map.mp hline
        have hname := (h.headers _ _ (hget hheader')).eq_contentLength (of_decide_eq_true htake)
        have hvalue := hget hheader'
        rw [hname, hcounted] at hvalue
        rw [hname, ← Option.some.inj hvalue]

theorem mem_lines (h : Framed version response length) (hline : line ∈ response.lines) :
    line = version ++ ' ' :: response.status ∨
      ∃ name value, response.headers[name]? = some value ∧ IsHeader name value ∧ line = name ++ value := by
  rcases List.mem_cons.mp hline with rfl | hline
  · exact Or.inl (by rw [h.version])
  · obtain ⟨header, hheader, rfl⟩ := List.mem_map.mp hline
    have hget := ExtTreeMap.mem_toList_iff_getElem?_eq_some.mp hheader
    exact Or.inr ⟨_, _, hget, h.headers _ _ hget, rfl⟩

theorem reply_eq (h : Framed version response length) (hversion : '\x00' ∉ version) :
    response.reply = Message.head "\r\n".toList response.lines ++ response.body := by
  rw [Response.reply, cstr_of_notMem]
  intro hmem
  rcases List.mem_append.mp hmem with hmem | hmem
  · obtain ⟨line, hline, hmem⟩ := List.mem_flatMap.mp hmem
    rcases List.mem_append.mp hmem with hmem | hmem
    · rcases mem_lines h hline with rfl | ⟨name, value, _, hheader, rfl⟩
      · exact (List.mem_append.mp hmem).elim hversion fun hmem => (List.mem_cons.mp hmem).elim (by decide) h.status.1
      · exact hheader.notMem_nul hmem
    · exact absurd hmem (by decide)
  · exact absurd hmem (by decide)

theorem lines_whole_iff (h : Framed version response length) (hversion : '\n' ∉ version) :
    (∀ line ∈ response.lines, line ≠ [] ∧ Message.Whole "\r\n".toList line) ↔
      ∀ cookie, response.headers["Set-Cookie: ".toList]? = some cookie → NoBreak cookie := by
  simp only [whole_iff_noBreak]
  constructor
  · intro hlines cookie hcookie
    have hmem : "Set-Cookie: ".toList ++ cookie ∈ response.lines :=
      List.mem_cons_of_mem _ (List.mem_map.mpr ⟨_, ExtTreeMap.mem_toList_iff_getElem?_eq_some.mpr hcookie, rfl⟩)
    exact (noBreak_append_iff (by decide)).mp (hlines _ hmem).2
  · intro hcookie line hline
    rcases mem_lines h hline with rfl | ⟨name, value, hget, hheader, rfl⟩
    · refine ⟨by simp, noBreak_of_newline fun hmem => ?_⟩
      exact (List.mem_append.mp hmem).elim hversion fun hmem => (List.mem_cons.mp hmem).elim (by decide) h.status.2
    · refine ⟨hheader.ne_nil, hheader.noBreak_iff.mpr ?_⟩
      rintro rfl
      exact hcookie value hget

theorem receive_reply (h : Framed version response length) (hversion : '\x00' ∉ version ∧ '\n' ∉ version) :
    receive response.reply = some ⟨response.lines, response.body⟩ ↔
      (∀ n ∈ length, 0 ≤ n) ∧ ∀ cookie, response.headers["Set-Cookie: ".toList]? = some cookie → NoBreak cookie := by
  rw [reply_eq h hversion.1, ← lines_whole_iff h hversion.2, receive]
  constructor
  · intro hreceive
    obtain ⟨⟨lines, rest⟩, hread, hreceive⟩ := Option.bind_eq_some_iff.mp hreceive
    obtain ⟨htext, hlines⟩ := Message.readHead_eq_some.mp hread
    dsimp only at hreceive
    split at hreceive
    · next hlength =>
        obtain ⟨rfl, rfl⟩ := Received.mk.inj (Option.some.inj hreceive)
        rw [lengthIn_tail h] at hlength
        subst hlength
        exact ⟨nofun, hlines⟩
    · next n hlength =>
        split at hreceive
        · next hn =>
            obtain ⟨rfl, _⟩ := Received.mk.inj (Option.some.inj hreceive)
            rw [lengthIn_tail h] at hlength
            subst hlength
            exact ⟨fun m hm => Option.some.inj hm ▸ hn.1, hlines⟩
        · cases hreceive
  · rintro ⟨hn, hlines⟩
    rw [Message.readHead_eq_some.mpr ⟨rfl, hlines⟩, Option.bind_eq_bind, Option.bind_some]
    dsimp only
    rw [lengthIn_tail h]
    have hbody := h.body
    cases length with
    | none => rfl
    | some n =>
        rw [Option.getD_some] at hbody
        dsimp only
        rw [if_pos ⟨hn n rfl, hbody.ge⟩, ← hbody, List.take_length]

/-- What a frontend writes for a request is read back as the response to it, unless the file of a download is not there or is counted
below zero, or the name that is set as a cookie has a line end in it. -/
theorem receive_clientHandler (hread : Request.read around.malloced around.contentLength socket = .ok (some req, left))
    (hanswer : site.answer around fuel commFd req = .ok (response, site')) :
    clientHandler around fuel commFd site socket = .ok (response.reply, site') ∧
      (receive response.reply = some ⟨response.lines, response.body⟩ ↔
        (site.page req = .downloadFile → 0 ≤ Site.fileSize around site.files (Site.downloadPath req)) ∧
          ∀ cookie, response.headers["Set-Cookie: ".toList]? = some cookie → NoBreak cookie) := by
  have hreq := offTheWire_of_read hread
  obtain ⟨length, hframed, hlength⟩ := Site.framed_answer hreq hanswer
  constructor
  · rw [clientHandler, hread, Run.ok_bind]
    dsimp only
    rw [hanswer, Run.ok_bind]
  · rw [receive_reply hframed hreq.version, hlength]

/-- A frontend that is told nothing. -/
def Outside.silent : Outside := ⟨fun _ => 'x', 0, 0, [], 0, fun _ _ => false, [], fun _ => [], ⟨∅, ∅⟩⟩

def socketOf (text : String) (h : text.toList ≠ []) : Socket := ⟨[text.toList], fun _ hchunk => List.mem_singleton.mp hchunk ▸ h⟩

def askedDownload : Socket := socketOf "GET /download?bob/x.txt HTTP/1.1\r\nCookie: sessionid=bob\r\n\r\n" (by decide)

def askedReg : Socket := socketOf "POST /register HTTP/1.1\r\nContent-Length: 21\r\n\r\nusername=a&password=p" (by decide)

def askedLogin : Socket := socketOf "POST /login HTTP/1.1\r\nContent-Length: 21\r\n\r\nusername=a&password=p" (by decide)

/-- A user who has a file and is logged in. -/
def bobInside : Site := { Site.bobSite "1" with sessions := {"bob".toList} }

/-- Whether a request is read and answered, and what can be decided of both. -/
def isAnswered (site : Site) (socket : Socket) (test : Request → Response → Bool) : Bool :=
  match Request.read (Outside.silent).malloced (Outside.silent).contentLength socket with
  | .ok (some req, _) =>
      match site.answer .silent 5 7 req with
      | .ok (response, _) => test req response
      | .error _ => false
  | _ => false

theorem exists_of_isAnswered {socket : Socket} {test : Request → Response → Bool} (h : isAnswered site socket test = true) :
    ∃ req left response site', Request.read (Outside.silent).malloced (Outside.silent).contentLength socket = .ok (some req, left) ∧
      site.answer .silent 5 7 req = .ok (response, site') ∧ test req response = true := by
  unfold isAnswered at h
  split at h
  · next req left hread =>
      split at h
      · next response site' hanswer => exact ⟨req, left, response, site', hread, hanswer, h⟩
      · cases h
  · cases h

def isDownload (req : Request) (response : Response) : Bool :=
  decide (bobInside.page req = .downloadFile ∧ 0 ≤ Site.fileSize .silent bobInside.files (Site.downloadPath req) ∧
    response.body = "1".toList ∧ response.headers["Set-Cookie: ".toList]? = none)

def isWelcome (site : Site) (req : Request) (response : Response) : Bool :=
  decide (site.page req ≠ .downloadFile ∧ response.headers["Set-Cookie: ".toList]? = some "sessionid=a".toList)

/-- A file is downloaded; and a user is registered and logs in, so that a cookie is set. -/
theorem receive_clientHandler_download_and_login :
    (∃ (response : Response) (site' : Site), response.body = "1".toList ∧
      clientHandler .silent 5 7 bobInside askedDownload = .ok (response.reply, site') ∧
      receive response.reply = some ⟨response.lines, response.body⟩) ∧
    ∃ (site : Site) (response : Response) (site' : Site),
      response.headers["Set-Cookie: ".toList]? = some "sessionid=a".toList ∧
      clientHandler .silent 5 7 site askedLogin = .ok (response.reply, site') ∧
      receive response.reply = some ⟨response.lines, response.body⟩ := by
  constructor
  · have hasked : isAnswered bobInside askedDownload isDownload = true := by decide +kernel
    obtain ⟨req, left, response, site', hread, hanswer, htest⟩ := exists_of_isAnswered hasked
    obtain ⟨_, hsize, hbody, hcookie⟩ := of_decide_eq_true htest
    obtain ⟨hhandled, hreceived⟩ := receive_clientHandler hread hanswer
    refine ⟨response, site', hbody, hhandled, hreceived.mpr ⟨fun _ => hsize, fun cookie hset => ?_⟩⟩
    rw [hcookie] at hset
    cases hset
  · have hasked : (clientHandler .silent 5 7 bobInside askedReg).toOption.any
        (fun handled => isAnswered handled.2 askedLogin (isWelcome handled.2)) = true := by decide +kernel
    cases hregistered : clientHandler .silent 5 7 bobInside askedReg with
    | error fault =>
        rw [hregistered] at hasked
        cases hasked
    | ok handled =>
        rw [hregistered] at hasked
        have hasked : isAnswered handled.2 askedLogin (isWelcome handled.2) = true := hasked
        obtain ⟨req, left, response, site', hread, hanswer, htest⟩ := exists_of_isAnswered hasked
        obtain ⟨hpage, hcookie⟩ := of_decide_eq_true htest
        obtain ⟨hhandled, hreceived⟩ := receive_clientHandler hread hanswer
        refine ⟨handled.2, response, site', hcookie, hhandled, hreceived.mpr ⟨fun heq => absurd heq hpage, fun cookie hset => ?_⟩⟩
        obtain rfl := Option.some.inj (hcookie.symm.trans hset)
        exact noBreak_of_newline (by decide)

end PennCloud.Frontend
