import PennCloud.Frontend.Proof.Endings
import PennCloud.Frontend.Proof.Mirrors

/-!
# What a download shows

The pages of `download` are made once the node of the user has listed its files, and only if the frontend finds the end of that
reply. The links are those to the files in the directory.
-/

namespace PennCloud

open Std LRUCache Chunkserver

variable {username name : Str} {commFd : Int} {fuel : Nat}

/-! ### The reply of the node -/

/-- The files of a user can be listed to a frontend: the user is in memory, and the list is read to its end. -/
def Listable (s : LRUCache) (username : Str) : Prop :=
  ∃ user type node, parseLine (Query.getlist username "file".toList).received 2 = [user, type] ∧ s.tablets[user]? = some node ∧
    (∀ filename value, (s.heap node).value[filename]? = some value → isOfType (chopTwo type) filename = true →
      "\r\n".toList <:+ value) ∧
    Undisturbed (',' :: done) (listText (chopTwo type) (s.heap node).value) ∧
    (crlfSplit (listText (chopTwo type) (s.heap node).value)).1.head? ≠ some done

theorem Listable.sendToBackend {s : Chunkserver} (h : Listable s.lru username) (hwired : s.lru.Wired) (commFd : Int) :
    ∃ fuel rep t, s.sendToBackend fuel commFd (Frontend.Site.getlistMessage username) = .ok (rep, t) := by
  obtain ⟨user, type, node, hparse, hresident, hvalues, hundisturbed⟩ := h
  have hmessage : Frontend.Site.getlistMessage username = (Query.getlist username "file".toList).message := by
    show "getlist ".toList ++ username ++ ",file\r\n".toList =
      "getlist".toList ++ ' ' :: ((username ++ ',' :: "file".toList) ++ "\r\n".toList)
    rw [List.append_assoc, List.append_assoc]
    rfl
  have hends : Ends (',' :: done) (listText (chopTwo type) (s.lru.heap node).value) :=
    (ends_listing (listText_shape hvalues)).mpr hundisturbed
  rw [← Query.endingOf_getlist username "file".toList] at hends
  obtain ⟨fuel, hread⟩ := (readRep_eq_iff _ _).mpr hends
  obtain ⟨t, hworker⟩ := @worker_getlist_returns s username commFd fuel "file".toList hwired
  refine ⟨fuel, (crlfSplit (listText (chopTwo type) (s.lru.heap node).value)).1, t, ?_⟩
  rw [hmessage, Chunkserver.sendToBackend, hworker, Run.ok_bind, repliesOn_getlist hwired hparse hresident hworker, hread,
    Run.ok_bind]

namespace Frontend.Site

variable {mail : Page → Site → Request → Except Fault (Response × Site)} {start site site' : Site} {req : Request}
  {response : Response} {event : Page × Request} {events : List (Page × Request)} {files : List Str} {dir file folder : Str}

/-! ### The pages -/

/-- A request for the list at the root, or with a `/` for the list of a folder. -/
def asks (username currFolder : Str) : Request :=
  ⟨"GET".toList, "/download".toList ++ currFolder, "HTTP/1.1".toList, 0, (∅ : Map Str).insert "sessionid".toList username, []⟩

/-- `download` answers a user, at the root and in every folder, with the links to what is in the directory. -/
structure Downloads (commFd : Int) (username : Str) (site : Site) : Prop where
  root : ∃ fuel template response site', site.files.getFileContent "html/download.html".toList = .ok template ∧
    ({ site with userName := username } : Site).download fuel commFd (asks username []) = .ok (response, site') ∧
    response.body = replaceAll (replaceAll template "$allDownloadFiles".toList
      (fileLinks (userDir username) (site.files.listAllFiles (userDir username)))) "$allFolders".toList
      (rootLinks (userDir username) (site.files.listAllFiles (userDir username)))
  folder : ∀ foldername : Str, foldername.length < npos → ∃ fuel template response site',
    site.files.getFileContent "html/download-subfolder.html".toList = .ok template ∧
    ({ site with userName := username } : Site).download fuel commFd (asks username ('/' :: foldername)) = .ok (response, site') ∧
    response.body = replaceAll template "$allDownloadFiles".toList
      (folderLinks (userDir username) foldername (site.files.listAllFiles (userDir username)))

/-- `download` answers, and the link to a file is at the root or in a folder that is linked to at the root. -/
structure Lists (commFd : Int) (username : Str) (site : Site) (name : Str) : Prop where
  downloads : site.Downloads commFd username
  linked : link ('?' :: userDir username ++ name) name <:+:
      fileLinks (userDir username) (site.files.listAllFiles (userDir username)) ∨
    ∃ folder savedFilename, folder.length < npos ∧
      link ("download/".toList ++ folder) folder <:+: rootLinks (userDir username) (site.files.listAllFiles (userDir username)) ∧
      link ('?' :: userDir username ++ name) savedFilename <:+:
        folderLinks (userDir username) folder (site.files.listAllFiles (userDir username))

/-- Nothing keeps `download` from an answer: the node lists the files of the user, and the templates are no directories. -/
structure Answerable (username : Str) (site : Site) : Prop where
  listable : Listable site.node.lru username
  root : ∃ template, site.files.getFileContent "html/download.html".toList = .ok template
  folder : ∃ template, site.files.getFileContent "html/download-subfolder.html".toList = .ok template

/-- The answer at the root, once the node has answered. -/
theorem download_root {template : Str} {rep : List Str} {node : Chunkserver} (hcurrUser : site.currUser = some (userDir username))
    (hsend : site.node.sendToBackend fuel commFd (getlistMessage site.userName) = .ok (rep, node))
    (htemplate : site.files.getFileContent "html/download.html".toList = .ok template) (hroot : substr req.path 9 npos = .ok []) :
    site.download fuel commFd req = .ok (((Response.start req).typed "text/html").withBody
      (replaceAll (replaceAll template "$allDownloadFiles".toList
        (fileLinks (userDir username) (site.files.listAllFiles (userDir username)))) "$allFolders".toList
        (rootLinks (userDir username) (site.files.listAllFiles (userDir username)))), { site with node := node }) := by
  rw [download, deref_eq_ok.mpr hcurrUser, Run.ok_bind, hroot, Run.ok_bind, hsend, Run.ok_bind]
  dsimp only
  rw [if_neg fun h => h rfl, htemplate, Run.ok_bind]

theorem download_folder {template foldername : Str} {rep : List Str} {node : Chunkserver}
    (hcurrUser : site.currUser = some (userDir username))
    (hsend : site.node.sendToBackend fuel commFd (getlistMessage site.userName) = .ok (rep, node))
    (htemplate : site.files.getFileContent "html/download-subfolder.html".toList = .ok template)
    (hfolder : substr req.path 9 npos = .ok ('/' :: foldername)) :
    site.download fuel commFd req = .ok (((Response.start req).typed "text/html").withBody
      (replaceAll template "$allDownloadFiles".toList
        (folderLinks (userDir username) foldername (site.files.listAllFiles (userDir username)))), { site with node := node }) := by
  rw [download, deref_eq_ok.mpr hcurrUser, Run.ok_bind, hfolder, Run.ok_bind, hsend, Run.ok_bind]
  dsimp only
  rw [if_pos (List.cons_ne_nil _ _), htemplate, Run.ok_bind]
  rfl

theorem Answerable.downloads (h : site.Answerable username) (hcurrUser : site.currUser = some (userDir username))
    (hwired : site.node.lru.Wired) (commFd : Int) : site.Downloads commFd username := by
  obtain ⟨fuel, rep, node, hsend⟩ := h.listable.sendToBackend hwired commFd
  let member : Site := { site with userName := username }
  constructor
  · obtain ⟨template, htemplate⟩ := h.root
    have hanswer : member.download fuel commFd (asks username []) = _ := download_root hcurrUser hsend htemplate rfl
    exact ⟨fuel, template, _, _, htemplate, hanswer, rfl⟩
  · intro foldername hlength
    obtain ⟨template, htemplate⟩ := h.folder
    have hfolder : substr (asks username ('/' :: foldername)).path 9 npos = .ok ('/' :: foldername) := by
      have hlong : ¬ ("/download".toList ++ '/' :: foldername).length < 9 := by
        rw [List.length_append]
        exact Nat.not_lt.mpr (Nat.le_add_right _ _)
      rw [asks, substr, if_neg hlong]
      exact congrArg _ (List.take_of_length_le hlength)
    have hanswer : member.download fuel commFd (asks username ('/' :: foldername)) = _ :=
      download_folder hcurrUser hsend htemplate hfolder
    exact ⟨fuel, template, _, _, htemplate, hanswer, rfl⟩

theorem fileLinks_of_shown (hmem : file ∈ files) (hshown : shownAtRoot dir file = .file name) :
    link ('?' :: dir ++ name) name <:+: fileLinks dir files := by
  obtain ⟨front, back, rfl⟩ := List.append_of_mem hmem
  rw [fileLinks, List.flatMap_append, List.flatMap_cons, hshown, ← List.append_assoc]
  exact ⟨_, _, rfl⟩

theorem rootLinks_of_shown (hmem : file ∈ files) (hshown : shownAtRoot dir file = .folder name) :
    link ("download/".toList ++ name) name <:+: rootLinks dir files := by
  obtain ⟨front, back, rfl⟩ := List.append_of_mem hmem
  rw [rootLinks, List.flatMap_append, List.flatMap_cons, hshown, ← List.append_assoc]
  exact ⟨_, _, rfl⟩

theorem folderLinks_of_shown (hmem : file ∈ files) (hshown : shownIn folder file = some name) :
    link ('?' :: dir ++ file) name <:+: folderLinks dir folder files := by
  obtain ⟨front, back, rfl⟩ := List.append_of_mem hmem
  rw [folderLinks, List.flatMap_append, List.flatMap_cons, hshown, ← List.append_assoc]
  exact ⟨_, _, rfl⟩

theorem length_lt_of_shownIn (hshown : shownIn folder file = some name) : folder.length < file.length := by
  rw [shownIn] at hshown
  split at hshown
  · next hinfix =>
      have hlength := hinfix.length_le
      rw [List.length_append] at hlength
      exact hlength
  · cases hshown

theorem Placed.lists (huser : ¬ ".folder".toList <:+: username) (hdir : home username ∈ site.files.directories)
    (hvisible : name.head? ≠ some '.') (hmem : home username ++ [name] ∈ site.files.content) (hshort : name.length ≤ npos)
    (h : Placed username site.files name) (hdownloads : site.Downloads commFd username) : site.Lists commFd username name := by
  obtain ⟨hlisted, hshown | ⟨marker, hmarker, folder, savedFilename, hfolder, hin⟩⟩ := h.listed huser hdir hvisible hmem
  · exact ⟨hdownloads, Or.inl (fileLinks_of_shown hlisted hshown)⟩
  · have hlength : folder.length < npos := Nat.lt_of_lt_of_le (length_lt_of_shownIn hin) hshort
    exact ⟨hdownloads, Or.inr ⟨folder, savedFilename, hlength, rootLinks_of_shown hmarker hfolder, folderLinks_of_shown hlisted hin⟩⟩

/-! ### Runs -/

theorem download_node (h : site.download fuel commFd req = .ok (response, site')) :
    site.node.worker fuel commFd (cstr (getlistMessage site.userName)) = .ok site'.node := by
  rw [download] at h
  obtain ⟨dir, _, h⟩ := Run.bind_eq_ok.mp h
  obtain ⟨currFolder, _, h⟩ := Run.bind_eq_ok.mp h
  obtain ⟨⟨_, node⟩, hsend, h⟩ := Run.bind_eq_ok.mp h
  have hnode : site'.node = node := by
    dsimp only at h
    split at h
    · obtain ⟨_, _, h⟩ := Run.bind_eq_ok.mp h
      rw [← (Prod.mk.inj (Except.ok.inj h)).2]
    · obtain ⟨_, _, h⟩ := Run.bind_eq_ok.mp h
      rw [← (Prod.mk.inj (Except.ok.inj h)).2]
  rw [hnode]
  exact sendToBackend_worker hsend

theorem Answers.wired (h : site.node.lru.Wired) (hfiles : event.1.onFiles = true) (hstep : Answers mail commFd site event site') :
    site'.node.lru.Wired := by
  obtain ⟨page, req⟩ := event
  obtain ⟨hpage, _, fuel, response, hanswer⟩ := hstep
  rw [respond] at hanswer
  rw [hpage] at hanswer
  cases page with
  | createNewFolder => exact createNewFolder_node hanswer ▸ h
  | handleUpload =>
      obtain ⟨_, _, _, _, hworker⟩ := handleUpload_node hanswer
      exact lasting_wired.worker h hworker
  | renameFile => exact renameFile_node hanswer ▸ h
  | moveFile => exact moveFile_node hanswer ▸ h
  | deleteFolder => exact deleteFolder_node hanswer ▸ h
  | deleteFile =>
      obtain ⟨_, _, hworker⟩ := deleteFile_node hanswer
      exact lasting_wired.worker h hworker
  | download =>
      have hworker := download_node hanswer
      exact lasting_wired.worker h hworker
  | _ => cases hfiles

/-- What the requests have left is shown nowhere. -/
def hidden (site : Site) : Bool :=
  has "my+folder+x" site && (site.files.listAllFiles (userDir "a".toList)).all fun file => shownAtRoot (userDir "a".toList) file = .nothing

end Frontend.Site

end PennCloud
