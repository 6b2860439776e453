import PennCloud.Frontend.Proof.Forms
import PennCloud.Frontend.Proof.Operations

/-!
# Whose directory a page works on

The directory is the one of the last registration, by whomever, and not of the user that the cookie names. Where the two
agree, the calls of a page stay in the directory.
-/

namespace PennCloud

open Std

variable {username name dir : Str} {files files' : Files} {root : List Str} {place old new : List Str}

/-! ### Calls below one place -/

/-- The same files and directories, but for what is at a place or below. -/
def SameElsewhere (root : List Str) (files files' : Files) : Prop :=
  ∀ place, ¬ root <+: place →
    files'.content[place]? = files.content[place]? ∧ (place ∈ files'.directories ↔ place ∈ files.directories)

theorem SameElsewhere.refl (root : List Str) (files : Files) : SameElsewhere root files files := fun _ _ => ⟨rfl, Iff.rfl⟩

theorem SameElsewhere.trans {files'' : Files} (h : SameElsewhere root files files') (h' : SameElsewhere root files' files'') :
    SameElsewhere root files files'' := by
  intro place hplace
  obtain ⟨hcontent, hdirectories⟩ := h place hplace
  obtain ⟨hcontent', hdirectories'⟩ := h' place hplace
  exact ⟨hcontent'.trans hcontent, hdirectories'.trans hdirectories⟩

theorem ne_of_elsewhere (hroot : root <+: old) (hplace : ¬ root <+: place) : old ≠ place := by
  rintro rfl
  exact hplace hroot

theorem getElem?_insert_elsewhere (m : ExtTreeMap (List Str) Str) (fileContent : Str) (hroot : root <+: new)
    (hplace : ¬ root <+: place) : (m.insert new fileContent)[place]? = m[place]? := by
  rw [SortedMap.getElem?_insert_eq, if_neg (ne_of_elsewhere hroot hplace)]

theorem getElem?_erase_elsewhere (m : ExtTreeMap (List Str) Str) (hroot : root <+: old) (hplace : ¬ root <+: place) :
    (m.erase old)[place]? = m[place]? := by
  rw [SortedMap.getElem?_erase_eq, if_neg (ne_of_elsewhere hroot hplace)]

theorem sameElsewhere_storeFile (hroot : root <+: locate (cstr (dir ++ name))) (fileContent : Str) :
    SameElsewhere root files (files.storeFile dir name fileContent) := by
  intro place hplace
  unfold Files.storeFile
  dsimp only
  split
  · exact ⟨rfl, Iff.rfl⟩
  · split
    · exact ⟨getElem?_insert_elsewhere _ _ hroot hplace, Iff.rfl⟩
    · exact ⟨rfl, Iff.rfl⟩

theorem sameElsewhere_remove (hroot : root <+: locate (cstr name)) : SameElsewhere root files (files.remove name) := by
  intro place hplace
  unfold Files.remove
  dsimp only
  split
  · exact ⟨rfl, Iff.rfl⟩
  · constructor
    · dsimp only
      split
      · rfl
      · exact getElem?_erase_elsewhere _ hroot hplace
    · dsimp only
      split
      · rw [ExtTreeSet.mem_erase]
        exact and_iff_right fun heq => ne_of_elsewhere hroot hplace (compare_eq_iff_eq.mp heq)
      · exact Iff.rfl

theorem sameElsewhere_moveDirectory (hold : root <+: old) (hnew : root <+: new) :
    SameElsewhere root files (files.moveDirectory old new) := by
  intro place hplace
  constructor
  · show (List.foldl _ files.content files.content.toList)[place]? = _
    generalize files.content.toList = entries
    generalize files.content = content
    induction entries generalizing content with
    | nil => rfl
    | cons entry entries ih =>
        rw [List.foldl_cons, ih]
        split
        · next hstarts =>
            have hentry : root <+: entry.1 := hold.trans (List.isPrefixOf_iff_prefix.mp hstarts)
            rw [getElem?_insert_elsewhere _ _ (hnew.trans (List.prefix_append _ _)) hplace, getElem?_erase_elsewhere _ hentry hplace]
        · rfl
  · show place ∈ List.foldl _ files.directories files.directories.toList ↔ _
    generalize files.directories.toList = entries
    generalize files.directories = directories
    induction entries generalizing directories with
    | nil => exact Iff.rfl
    | cons entry entries ih =>
        rw [List.foldl_cons, ih]
        split
        · next hstarts =>
            have hentry : root <+: entry := hold.trans (List.isPrefixOf_iff_prefix.mp hstarts)
            have hmoved : root <+: new ++ entry.drop old.length := hnew.trans (List.prefix_append _ _)
            rw [ExtTreeSet.mem_insert, ExtTreeSet.mem_erase]
            constructor
            · rintro (heq | ⟨_, hmem⟩)
              · exact absurd (compare_eq_iff_eq.mp heq) (ne_of_elsewhere hmoved hplace)
              · exact hmem
            · exact fun hmem => Or.inr ⟨fun heq => ne_of_elsewhere hentry hplace (compare_eq_iff_eq.mp heq), hmem⟩
        · exact Iff.rfl

theorem sameElsewhere_rename {oldname newname : Str} (hold : root <+: locate (cstr oldname)) (hnew : root <+: locate (cstr newname)) :
    SameElsewhere root files (files.rename oldname newname) := by
  unfold Files.rename
  dsimp only
  split
  · exact .refl root files
  · split
    · exact .refl root files
    · split
      · split
        · exact .refl root files
        · intro place hplace
          exact ⟨(getElem?_insert_elsewhere _ _ hnew hplace).trans (getElem?_erase_elsewhere _ hold hplace), Iff.rfl⟩
      · split
        · exact sameElsewhere_moveDirectory hold hnew
        · exact .refl root files

theorem Operation.sameElsewhere {operation : Operation} (h : ∀ place ∈ operation.places dir, root <+: place) :
    SameElsewhere root files (operation.apply dir files) := by
  cases operation with
  | list => exact .refl root files
  | store filename fileContent =>
      by_cases hdots : Files.endsInDots (cstr (dir ++ filename)) = true
      · rw [Operation.apply, Files.storeFile, if_pos (Or.inl hdots)]
        exact .refl root files
      · apply sameElsewhere_storeFile
        apply h
        simp [Operation.places, Operation.names, hdots]
  | rename oldname newname =>
      by_cases hdots : Files.endsInDots (cstr (dir ++ oldname)) = true ∨ Files.endsInDots (cstr (dir ++ newname)) = true
      · rw [Operation.apply, Files.rename, if_pos (Or.inr (Or.inr hdots))]
        exact .refl root files
      · obtain ⟨hold, hnew⟩ := not_or.mp hdots
        have hplaces : Operation.places dir (.rename oldname newname) = [locate (cstr (dir ++ oldname)), locate (cstr (dir ++ newname))] := by
          simp [Operation.places, Operation.names, hold, hnew]
        rw [hplaces] at h
        exact sameElsewhere_rename (h _ List.mem_cons_self) (h _ (List.mem_cons_of_mem _ List.mem_cons_self))
  | remove filename =>
      by_cases hdots : Files.endsInDots (cstr (dir ++ filename)) = true
      · rw [Operation.apply, Files.remove, if_pos hdots]
        exact .refl root files
      · apply sameElsewhere_remove
        apply h
        simp [Operation.places, Operation.names, hdots]

theorem sameElsewhere_foldl {operations : List Operation} (h : ∀ operation ∈ operations, ∀ place ∈ operation.places dir, root <+: place)
    (files : Files) : SameElsewhere root files (operations.foldl (Operation.apply dir) files) := by
  induction operations generalizing files with
  | nil => exact .refl root files
  | cons operation operations ih =>
      obtain ⟨hfirst, hrest⟩ := List.forall_mem_cons.mp h
      rw [List.foldl_cons]
      exact (Operation.sameElsewhere hfirst).trans (ih hrest _)

/-! ### Names without a slash -/

theorem home_isPrefix (hnul : '\x00' ∉ username) (hslash : '/' ∉ name)
    (hdots : ¬ Files.endsInDots (cstr (userDir username ++ name)) = true) : home username <+: locate (cstr (userDir username ++ name)) := by
  rw [cstr_userDir hnul] at hdots ⊢
  have hslash : '/' ∉ cstr name := fun hmem => hslash (List.takeWhile_subset _ hmem)
  have hempty : cstr (userDir username) = userDir username := by
    rw [← List.append_nil (userDir username), cstr_userDir hnul]
    rfl
  by_cases hne : cstr name = []
  · rw [hne, List.append_nil, home, hempty]
  · rw [endsInDots_userDir_append hslash hne, Bool.or_eq_true, decide_eq_true_eq, decide_eq_true_eq, not_or] at hdots
    have hname : IsName (cstr name) := ⟨⟨hne, hdots⟩, hslash, Chunkserver.notMem_cstr name⟩
    rw [← cstr_entry hnul hname, locate_entry hnul hname]
    exact List.prefix_append _ _

theorem home_isPrefix_of_mem_places (hnul : '\x00' ∉ username) {operation : Operation} (hslash : ∀ name ∈ operation.names, '/' ∉ name)
    (hplace : place ∈ operation.places (userDir username)) : home username <+: place := by
  rw [Operation.places] at hplace
  split at hplace
  · rw [List.mem_singleton.mp hplace]
    exact List.prefix_rfl
  · split at hplace
    · cases hplace
    · next hdots =>
        obtain ⟨path, hpath, rfl⟩ := List.mem_map.mp hplace
        obtain ⟨name, hname, rfl⟩ := List.mem_map.mp hpath
        exact home_isPrefix hnul (hslash name hname) fun h => hdots (List.any_eq_true.mpr ⟨_, hpath, h⟩)

namespace Frontend

/-- The pages for visitors and accounts. -/
def Page.onAccounts : Page → Bool
  | .file | .reg | .login | .upload | .logout | .nothing => true
  | _ => false

namespace Site

variable {mail : Page → Site → Request → Except Fault (Response × Site)} {fuel : Nat} {commFd : Int} {start site site' : Site}
  {req : Request} {response : Response} {event : Page × Request} {events : List (Page × Request)}

/-! ### One request after another -/

/-- A request for a page is answered. -/
structure Answers (mail : Page → Site → Request → Except Fault (Response × Site)) (commFd : Int) (site : Site) (event : Page × Request)
    (site' : Site) : Prop where
  page : site.page event.2 = event.1
  handled : event.1.onFiles = true ∨ event.1.onAccounts = true
  answer : ∃ fuel response, site.respond (folderPages mail fuel commFd) fuel commFd event.2 = .ok (response, site')

/-- The user that a request registers, or tries to. -/
def registrant : Page × Request → Option Str
  | (.reg, req) => if req.method = "POST".toList then (credentials req).toOption.map Prod.fst else none
  | _ => none

theorem registrant_reg (req : Request) : registrant (.reg, req) =
    if req.method = "POST".toList then (credentials req).toOption.map Prod.fst else none := rfl

/-- The last user that was registered. -/
def lastRegistrant (events : List (Page × Request)) : Option Str := (events.filterMap registrant).getLast?

theorem lastRegistrant_concat (events : List (Page × Request)) (event : Page × Request) :
    lastRegistrant (events ++ [event]) = (registrant event).or (lastRegistrant events) := by
  rw [lastRegistrant, List.filterMap_append]
  cases hevent : registrant event with
  | none =>
      rw [List.filterMap_cons_none hevent, List.filterMap_nil, List.append_nil]
      rfl
  | some username =>
      rw [List.filterMap_cons_some hevent, List.filterMap_nil, List.getLast?_concat]
      rfl

theorem reg_currUser (h : site.reg fuel commFd req = .ok (response, site')) :
    site'.currUser = ((registrant (.reg, req)).map userDir).or site.currUser := by
  rw [reg] at h
  rw [registrant_reg]
  split at h
  · next hget =>
      obtain ⟨_, _, h⟩ := Run.bind_eq_ok.mp h
      obtain ⟨_, rfl⟩ := Prod.mk.inj (Except.ok.inj h)
      rw [hget]
      rfl
  · split at h
    · next hpost =>
        obtain ⟨⟨username, password⟩, hcredentials, h⟩ := Run.bind_eq_ok.mp h
        obtain ⟨⟨exist, node⟩, _, h⟩ := Run.bind_eq_ok.mp h
        rw [if_pos hpost, hcredentials]
        dsimp only at h
        split at h
        · obtain ⟨_, _, h⟩ := Run.bind_eq_ok.mp h
          obtain ⟨_, rfl⟩ := Prod.mk.inj (Except.ok.inj h)
          rfl
        · obtain ⟨_, _, h⟩ := Run.bind_eq_ok.mp h
          obtain ⟨_, _, h⟩ := Run.bind_eq_ok.mp h
          obtain ⟨_, rfl⟩ := Prod.mk.inj (Except.ok.inj h)
          rfl
    · next hpost =>
        obtain ⟨_, rfl⟩ := Prod.mk.inj (Except.ok.inj h)
        rw [if_neg hpost]
        rfl

theorem login_currUser (h : site.login fuel commFd req = .ok (response, site')) : site'.currUser = site.currUser := by
  rw [login] at h
  dsimp only at h
  split at h
  · obtain ⟨_, _, h⟩ := Run.bind_eq_ok.mp h
    obtain ⟨_, rfl⟩ := Prod.mk.inj (Except.ok.inj h)
    rfl
  · split at h
    · obtain ⟨⟨username, password⟩, _, h⟩ := Run.bind_eq_ok.mp h
      obtain ⟨⟨valid, node⟩, _, h⟩ := Run.bind_eq_ok.mp h
      dsimp only at h
      split at h
      · obtain ⟨_, _, h⟩ := Run.bind_eq_ok.mp h
        obtain ⟨_, rfl⟩ := Prod.mk.inj (Except.ok.inj h)
        rfl
      · obtain ⟨_, _, h⟩ := Run.bind_eq_ok.mp h
        split at h
        · obtain ⟨_, _, h⟩ := Run.bind_eq_ok.mp h
          obtain ⟨_, rfl⟩ := Prod.mk.inj (Except.ok.inj h)
          rfl
        · obtain ⟨_, rfl⟩ := Prod.mk.inj (Except.ok.inj h)
          rfl
    · split at h
      · obtain ⟨_, _, h⟩ := Run.bind_eq_ok.mp h
        obtain ⟨_, rfl⟩ := Prod.mk.inj (Except.ok.inj h)
        rfl
      · obtain ⟨_, rfl⟩ := Prod.mk.inj (Except.ok.inj h)
        rfl

theorem Answers.currUser (h : Answers mail commFd site event site') :
    site'.currUser = ((registrant event).map userDir).or site.currUser := by
  obtain ⟨page, req⟩ := event
  obtain ⟨hpage, hhandled, fuel, response, hanswer⟩ := h
  dsimp only at hpage hhandled hanswer
  rcases hhandled with hfiles | haccounts
  · rw [(respond_leaves (hpage ▸ hfiles) hanswer).currUser]
    cases page <;> first | rfl | cases hfiles
  · rw [respond] at hanswer
    rw [hpage] at hanswer
    cases page with
    | reg => exact reg_currUser hanswer
    | login =>
        refine (login_currUser hanswer).trans ?_
        split <;> rfl
    | logout =>
        dsimp only at hanswer
        rw [login_currUser hanswer]
        rfl
    | file =>
        obtain ⟨_, _, hanswer⟩ := Run.bind_eq_ok.mp hanswer
        obtain ⟨_, rfl⟩ := Prod.mk.inj (Except.ok.inj hanswer)
        rfl
    | upload =>
        obtain ⟨_, _, hanswer⟩ := Run.bind_eq_ok.mp hanswer
        obtain ⟨_, rfl⟩ := Prod.mk.inj (Except.ok.inj hanswer)
        rfl
    | nothing =>
        obtain ⟨_, rfl⟩ := Prod.mk.inj (Except.ok.inj hanswer)
        rfl
    | _ => cases haccounts

/-- After any requests the directory is the one of the user that was registered last. -/
theorem currUser_of_runs (hstart : start.currUser = none) (hrun : Run.Runs (Answers mail commFd) start events site) :
    site.currUser = (lastRegistrant events).map userDir := by
  refine Run.Runs.invariant (P := fun events site => site.currUser = (lastRegistrant events).map userDir) hstart ?_ hrun
  intro events site event site' hsite hanswer
  rw [hanswer.currUser, hsite, lastRegistrant_concat]
  cases registrant event <;> rfl

theorem notMem_of_lastRegistrant (h : lastRegistrant events = some username) : '\x00' ∉ username := by
  obtain ⟨⟨page, req⟩, _, hevent⟩ := List.mem_filterMap.mp (List.mem_of_getLast? h)
  unfold registrant at hevent
  split at hevent
  · next req' heq =>
      split at hevent
      · obtain ⟨⟨user, pwd⟩, hcredentials, rfl⟩ := Option.map_eq_some_iff.mp hevent
        cases hread : credentials req' with
        | error fault =>
            rw [hread] at hcredentials
            cases hcredentials
        | ok read =>
            rw [hread] at hcredentials
            obtain rfl := Option.some.inj hcredentials
            exact (notMem_credentials hread).1
      · cases hevent
  · cases hevent

/-! ### A request of a user -/

/-- The names that a page makes its calls with have no slash. -/
def Flat (site : Site) (req : Request) : Prop :=
  ∀ dir calls, site.currUser = some dir → operations site.files dir req (site.page req) = .ok calls →
    ∀ call ∈ calls, ∀ name ∈ call.names, '/' ∉ name

/-- A request reads, creates, renames and removes files in the directory of a user only. -/
structure StaysIn (mail : Page → Site → Request → Except Fault (Response × Site)) (commFd : Int) (site : Site) (req : Request)
    (username : Str) : Prop where
  calls : ∀ dir calls, site.currUser = some dir → operations site.files dir req (site.page req) = .ok calls →
    ∀ call ∈ calls, ∀ place ∈ call.places dir, home username <+: place
  effect : ∀ fuel response site', site.respond (folderPages mail fuel commFd) fuel commFd req = .ok (response, site') →
    SameElsewhere (home username) site.files site'.files

/-- In every run the files of a request are those of the user in its cookie, if that user was registered last. -/
theorem staysIn_of_lastRegistrant (hstart : start.currUser = none) (hrun : Run.Runs (Answers mail commFd) start events site)
    (hpage : (site.page req).onFiles = true) (hsession : site.isAlreadyLogin req.cookies = some username) (hflat : site.Flat req)
    (hlast : lastRegistrant events = site.isAlreadyLogin req.cookies) : StaysIn mail commFd site req username := by
  rw [hsession] at hlast
  have hnul := notMem_of_lastRegistrant hlast
  have hdir : site.currUser = some (userDir username) := by
    rw [currUser_of_runs hstart hrun, hlast]
    rfl
  have hcalls : ∀ dir calls, site.currUser = some dir → operations site.files dir req (site.page req) = .ok calls →
      ∀ call ∈ calls, ∀ place ∈ call.places dir, home username <+: place := by
    intro dir calls hcurrUser hoperations call hcall place hplace
    obtain rfl := Option.some.inj (hdir.symm.trans hcurrUser)
    exact home_isPrefix_of_mem_places hnul (hflat _ _ hcurrUser hoperations call hcall) hplace
  refine ⟨hcalls, fun fuel response site' hrespond => ?_⟩
  obtain ⟨dir, calls, hcurrUser, hoperations, hfiles⟩ := (respond_leaves hpage hrespond).files
  rw [hfiles]
  exact sameElsewhere_foldl (hcalls dir calls hcurrUser hoperations) site.files

/-! ### Two users -/

def post (path body : String) (cookies : Map Str) : Request :=
  ⟨"POST".toList, path.toList, "HTTP/1.1".toList, 0, cookies, body.toList⟩

def registers (username : String) : Page × Request := (.reg, post "/register" ("username=" ++ username ++ "&password=p") ∅)

def logsIn (username : String) : Page × Request := (.login, post "/login" ("username=" ++ username ++ "&password=p") ∅)

def uploaded : String := "filename=\"x\"\r\n\r\nhi\r\n----"

def upload (username : String) : Request := post "/upload" uploaded ((∅ : Map Str).insert "sessionid".toList username.toList)

/-- A frontend that has just started, with no files. -/
def emptySite : Site := ⟨⟨∅, ∅⟩, ∅, [], none, Chunkserver.fresh 100 true 9⟩

def noMail : Page → Site → Request → Except Fault (Response × Site) := fun _ _ _ => .error .exited

def answerAll (site : Site) (events : List (Page × Request)) : Except Fault Site :=
  events.foldlM (fun site event =>
    if site.page event.2 = event.1 then (site.respond (folderPages noMail 5 7) 5 7 event.2).map Prod.snd else .error .exited) site

theorem runs_of_answerAll (hhandled : ∀ event ∈ events, event.1.onFiles = true ∨ event.1.onAccounts = true)
    (h : answerAll start events = .ok site) :
    Run.Runs (fun site event site' => event ∈ events ∧ Answers noMail 7 site event site') start events site := by
  refine Run.Runs.of_foldlM (fun event hevent site site' hstep => ?_) h
  split at hstep
  · next hpage =>
      cases hrespond : site.respond (folderPages noMail 5 7) 5 7 event.2 with
      | error fault =>
          rw [hrespond] at hstep
          cases hstep
      | ok answer =>
          rw [hrespond] at hstep
          obtain rfl := Except.ok.inj hstep
          exact ⟨hevent, hpage, hhandled event hevent, 5, answer.1, hrespond⟩
  · cases hstep

theorem operations_upload (files : Files) (dir : Str) (username : String) :
    operations files dir (upload username) .handleUpload = .ok [.store "x".toList "hi".toList] := by
  have hname : extractFileName uploaded.toList = .ok "x".toList := by decide +kernel
  have hcontent : extractFileContent uploaded.toList = .ok "hi".toList := by decide +kernel
  have hbody : (upload username).body = uploaded.toList := rfl
  rw [operations, hbody, hname, Run.ok_bind, hcontent, Run.ok_bind]

theorem flat_upload {username : String} (hpage : site.page (upload username) = .handleUpload) : site.Flat (upload username) := by
  intro dir calls _ hcalls call hcall name hname
  rw [hpage, operations_upload] at hcalls
  obtain rfl := Except.ok.inj hcalls
  rw [List.mem_singleton.mp hcall] at hname
  rw [List.mem_singleton.mp hname]
  decide

/-- Where the requests have led: whether an upload is one of a user who is logged in. -/
def uploads (username : String) (site : Site) : Bool :=
  decide (site.page (upload username) = .handleUpload ∧ site.isAlreadyLogin (upload username).cookies = some username.toList)

theorem exists_answerAll {username : String} (h : (answerAll start events).toOption.any (uploads username) = true) :
    ∃ site, answerAll start events = .ok site ∧ site.page (upload username) = .handleUpload ∧
      site.isAlreadyLogin (upload username).cookies = some username.toList := by
  cases hrun : answerAll start events with
  | error fault =>
      rw [hrun] at h
      cases h
  | ok site =>
      rw [hrun] at h
      obtain ⟨hpage, hsession⟩ := of_decide_eq_true h
      exact ⟨site, rfl, hpage, hsession⟩

/-- A user who has been registered, and has uploaded a file, in front of the one whose request it is. -/
def otherFirst : List (Page × Request) :=
  [registers "b", logsIn "b", (.handleUpload, upload "b"), registers "a", logsIn "a"]

theorem staysIn_of_lastRegistrant_second : ∃ site, Run.Runs (Answers noMail 7) emptySite otherFirst site ∧
    StaysIn noMail 7 site (upload "a") "a".toList := by
  obtain ⟨site, hanswers, hpage, hsession⟩ := exists_answerAll
    (show (answerAll emptySite otherFirst).toOption.any (uploads "a") = true by decide +kernel)
  have hrun := (runs_of_answerAll (by decide) hanswers).mono fun _ _ _ hstep => hstep.2
  refine ⟨site, hrun, staysIn_of_lastRegistrant rfl hrun (hpage ▸ rfl) hsession (flat_upload hpage) ?_⟩
  rw [hsession]
  decide +kernel

/-- The file of one user is stored in the directory of another, who was registered behind the first. -/
theorem not_staysIn_two : ∃ site, Run.Runs (Answers noMail 7) emptySite [registers "a", registers "b", logsIn "a"] site ∧
    (site.page (upload "a")).onFiles = true ∧ site.isAlreadyLogin (upload "a").cookies = some "a".toList ∧ site.Flat (upload "a") ∧
      ¬ StaysIn noMail 7 site (upload "a") "a".toList := by
  obtain ⟨site, hanswers, hpage, hsession⟩ := exists_answerAll
    (show (answerAll emptySite [registers "a", registers "b", logsIn "a"]).toOption.any (uploads "a") = true by decide +kernel)
  have hrun := (runs_of_answerAll (by decide) hanswers).mono fun _ _ _ hstep => hstep.2
  refine ⟨site, hrun, hpage ▸ rfl, hsession, flat_upload hpage, fun hstays => ?_⟩
  have hdir : site.currUser = some "b/".toList := by
    rw [currUser_of_runs rfl hrun]
    decide +kernel
  have hplace := hstays.calls _ _ hdir (hpage ▸ operations_upload _ _ _) _ List.mem_cons_self ["b".toList, "x".toList] (by decide +kernel)
  exact absurd hplace (by decide +kernel)

end Site

end Frontend

end PennCloud
