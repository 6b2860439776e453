import PennCloud.Kv.Proof.Counters
import PennCloud.Frontend.Proof.Registration
import PennCloud.Frontend.Proof.Shelves
import PennCloud.Kv.Proof.Budget

/-!
# Two copies of a file

An upload goes to the directory of the user and to the storage, and so does the deletion of a file. A rename, a move and the
deletion of a folder only change the directory, and an upload over a file appends to the stored one.
-/

namespace PennCloud

open Std LRUCache

variable {username name filename fileContent value : Str} {files files' : Files} {stored : Map Str}

/-! ### The copies -/

/-- A file in the directory of a user that is no marker. -/
def localFile (username : Str) (files : Files) (name : Str) : Option Str :=
  if ".folder".toList <:+ name then none else files.content[home username ++ [name]]?

/-- A stored file that is neither the password nor a message. -/
def storedFile (stored : Map Str) (name : Str) : Option Str :=
  if name = "pwd".toList ∨ name.take 2 = "##".toList then none else stored[name]?

/-- The same names, and each stored value is the content of the file and the end of a line. -/
def Agree (username : Str) (files : Files) (stored : Map Str) : Prop :=
  ∀ name, storedFile stored name = (localFile username files name).map (· ++ "\r\n".toList)

theorem Agree.congr (h : Agree username files stored)
    (hfiles : ∀ name, ¬ ".folder".toList <:+ name → files'.content[home username ++ [name]]? = files.content[home username ++ [name]]?) :
    Agree username files' stored := by
  intro name
  rw [h name, localFile, localFile]
  split
  · rfl
  · next hmarker => rw [hfiles name hmarker]

/-- A name of neither a marker nor something else that is stored. -/
structure IsPlain (name : Str) : Prop where
  marker : ¬ ".folder".toList <:+ name
  hidden : ¬ (name = "pwd".toList ∨ name.take 2 = "##".toList)

theorem localFile_of_isPlain (hname : IsPlain name) (files : Files) :
    localFile username files name = files.content[home username ++ [name]]? := if_neg hname.marker

theorem storedFile_of_isPlain (hname : IsPlain name) (stored : Map Str) : storedFile stored name = stored[name]? :=
  if_neg hname.hidden

theorem entry_ne {other : Str} (hne : name ≠ other) : home username ++ [name] ≠ home username ++ [other] :=
  fun heq => hne (List.cons.inj (List.append_cancel_left heq)).1

theorem Agree.store (h : Agree username files stored) (hname : IsPlain name) (hnew : home username ++ [name] ∉ files.content)
    (hcontent : files'.content = files.content.insert (home username ++ [name]) value) :
    Agree username files' (addFile stored (name, value ++ "\r\n".toList)) := by
  have hnone : stored[name]? = none := by
    rw [← storedFile_of_isPlain hname, h name, localFile_of_isPlain hname, ExtTreeMap.getElem?_eq_none hnew, Option.map_none]
  have hadd : addFile stored (name, value ++ "\r\n".toList) = stored.insert name (value ++ "\r\n".toList) := by
    rw [addFile, ExtTreeMap.getD_eq_getD_getElem?, hnone]
    rfl
  intro other
  rw [hadd]
  by_cases hother : name = other
  · subst hother
    rw [localFile_of_isPlain hname, storedFile_of_isPlain hname, hcontent, ExtTreeMap.getElem?_insert_self,
      ExtTreeMap.getElem?_insert_self, Option.map_some]
  · have hsame := h other
    rw [localFile, storedFile] at hsame ⊢
    rw [hcontent, SortedMap.getElem?_insert_eq, SortedMap.getElem?_insert_eq, if_neg hother, if_neg (entry_ne hother)]
    exact hsame

theorem Agree.remove (h : Agree username files stored) (hcontent : files'.content = files.content.erase (home username ++ [name])) :
    Agree username files' (stored.erase name) := by
  intro other
  have hsame := h other
  rw [localFile, storedFile] at hsame ⊢
  rw [hcontent, SortedMap.getElem?_erase_eq, SortedMap.getElem?_erase_eq]
  by_cases hother : name = other
  · rw [if_pos hother, if_pos (congrArg (home username ++ [·]) hother), ite_self, ite_self]
    rfl
  · rw [if_neg hother, if_neg (entry_ne hother)]
    exact hsame

/-! ### The directory -/

theorem home_ne_entry : home username ++ [name] ≠ home username := by
  intro heq
  have hlength := congrArg List.length heq
  rw [List.length_append] at hlength
  exact absurd hlength (Nat.succ_ne_self _)

theorem home_mem_remove (hnul : '\x00' ∉ username) (hname : IsName name) (hdir : home username ∈ files.directories) :
    home username ∈ (files.remove (userDir username ++ name)).directories := by
  unfold Files.remove
  dsimp only
  rw [locate_entry hnul hname]
  split
  · exact hdir
  · dsimp only
    split
    · exact ExtTreeSet.mem_erase.mpr ⟨fun heq => home_ne_entry (compare_eq_iff_eq.mp heq), hdir⟩
    · exact hdir

theorem home_mem_foldl_remove (hnul : '\x00' ∉ username) {names : List Str} (hnames : ∀ name ∈ names, IsName name)
    (hdir : home username ∈ files.directories) :
    home username ∈ (names.foldl (fun files name => files.remove (userDir username ++ name)) files).directories := by
  induction names generalizing files with
  | nil => exact hdir
  | cons name names ih =>
      obtain ⟨hname, hnames⟩ := List.forall_mem_cons.mp hnames
      exact ih hnames (home_mem_remove hnul hname hdir)

/-- A rename that takes a marker to a marker, or nothing anywhere. -/
theorem rename_keeps {old new : Str} (hnul : '\x00' ∉ username) (hdir : home username ∈ files.directories) (hold : IsName old)
    (hnew : IsName new) (hmarkers : Renames username files old new → ".folder".toList <:+ old ∧ ".folder".toList <:+ new) :
    home username ∈ (files.rename (userDir username ++ old) (userDir username ++ new)).directories ∧
      ∀ name, ¬ ".folder".toList <:+ name →
        (files.rename (userDir username ++ old) (userDir username ++ new)).content[home username ++ [name]]? =
          files.content[home username ++ [name]]? := by
  rcases rename_entry hnul hdir hold hnew with ⟨hrenames, fileContent, heq⟩ | ⟨hdir', hsame⟩
  · obtain ⟨hmarker, hmarker'⟩ := hmarkers hrenames
    rw [heq]
    refine ⟨hdir, fun name hname => ?_⟩
    have hne : new ≠ name := fun heq => hname (heq ▸ hmarker')
    have hne' : old ≠ name := fun heq => hname (heq ▸ hmarker)
    dsimp only
    rw [SortedMap.getElem?_insert_eq, SortedMap.getElem?_erase_eq, if_neg (entry_ne hne), if_neg (entry_ne hne')]
  · exact ⟨hdir', fun name _ => hsame name⟩

/-- The marker of a new folder is stored, or nothing. -/
theorem newFolder_keeps {foldername : Str} (hnul : '\x00' ∉ username) (hdir : home username ∈ files.directories)
    (hname : IsName (Frontend.Site.markerOf foldername)) :
    home username ∈ (files.storeFile (userDir username) (Frontend.Site.markerOf foldername) []).directories ∧
      ∀ name, ¬ ".folder".toList <:+ name →
        (files.storeFile (userDir username) (Frontend.Site.markerOf foldername) []).content[home username ++ [name]]? =
          files.content[home username ++ [name]]? := by
  rw [storeFile_entry hnul hdir hname]
  split
  · exact ⟨hdir, fun _ _ => rfl⟩
  · refine ⟨hdir, fun name hmarker => ?_⟩
    have hne : Frontend.Site.markerOf foldername ≠ name := by
      rintro rfl
      exact hmarker (List.suffix_append _ _)
    exact (SortedMap.getElem?_insert_eq ..).trans (if_neg (entry_ne hne))

/-- What is removed with a folder is a marker, or was no file. -/
theorem removeFolder_keeps {foldername : Str} (hnul : '\x00' ∉ username) (hdir : home username ∈ files.directories)
    (hnames : ∀ name ∈ (files.listAllFiles (userDir username)).filter (Frontend.Site.inFolder foldername), IsName name)
    (hmarkers : ∀ name, home username ++ [name] ∈ files.content → name.head? ≠ some '.' →
      Frontend.Site.inFolder foldername name = true → ".folder".toList <:+ name) :
    home username ∈ (((files.listAllFiles (userDir username)).filter (Frontend.Site.inFolder foldername)).foldl
        (fun files name => files.remove (userDir username ++ name)) files).directories ∧
      ∀ name, ¬ ".folder".toList <:+ name →
        (((files.listAllFiles (userDir username)).filter (Frontend.Site.inFolder foldername)).foldl
          (fun files name => files.remove (userDir username ++ name)) files).content[home username ++ [name]]? =
            files.content[home username ++ [name]]? := by
  refine ⟨home_mem_foldl_remove hnul hnames hdir, fun name hmarker => ?_⟩
  rw [content_foldl_remove hnul hnames, SortedMap.getElem?_foldl_erase (home username ++ [·])]
  split
  · next hmem =>
      obtain ⟨other, hother, hentry⟩ := List.mem_map.mp hmem
      obtain rfl := (List.cons.inj (List.append_cancel_left hentry)).1
      obtain ⟨hlisted, hfolder⟩ := List.mem_filter.mp hother
      have hvisible := ((mem_listAllFiles hdir).mp hlisted).2
      -- what is removed and no marker is a directory
      exact (ExtTreeMap.getElem?_eq_none fun hcontent => hmarker (hmarkers other hcontent hvisible hfolder)).symm
  · rfl

/-! ### The node -/

namespace Chunkserver

open Frontend Frontend.Site

variable {s t : Chunkserver} {fuel : Nat} {commFd : Int}

theorem worker_putFile (huser : ',' ∉ username ∧ '\x00' ∉ username) (hname : ',' ∉ filename ∧ '\x00' ∉ filename)
    (hcontent : '\x00' ∉ fileContent) (h : s.lru.Settled)
    (hroom : s.lru.HasRoom (.put username filename (fileContent ++ "\r\n".toList) commFd 0))
    (hrun : s.worker fuel commFd (cstr (putFileMessage username filename fileContent)) = .ok t) :
    t.lru.Settled ∧ t.lru.filesOf username = addFile (s.lru.filesOf username) (filename, fileContent ++ "\r\n".toList) := by
  have hmessage : cstr (putFileMessage username filename fileContent) =
      "put ".toList ++ (username ++ ',' :: (filename ++ ',' :: (fileContent ++ "\r\n".toList))) := by
    rw [cstr_putFileMessage huser.2 hname.2 hcontent, putFileMessage_eq]
  obtain ⟨lru, hexec, hheap, hnodes, htablets, hvirmem⟩ := exec_of_putMessage huser.1 hname.1 hmessage hrun
  have hobeys := h.obeys_of_exec hroom hexec
  refine ⟨hobeys.sets.settled.congr hheap hnodes htablets hvirmem, ?_⟩
  rw [hobeys.sets.settled.filesOf_eq hheap hnodes htablets hvirmem, hobeys.sets.filesOf]
  exact (if_pos rfl).trans (Function.update_self ..)

theorem worker_deleteFile (huser : ',' ∉ username ∧ '\x00' ∉ username) (hname : '\x00' ∉ filename) (h : s.lru.Settled)
    (hrun : s.worker fuel commFd (cstr (deleMessage username filename)) = .ok t) :
    t.lru.Settled ∧ t.lru.filesOf username = (s.lru.filesOf username).erase filename := by
  have hcstr : cstr (cstr (deleMessage username filename)) = deleMessage username filename := by
    rw [cstr_of_notMem (notMem_cstr _), cstr_deleMessage huser.2 hname]
  have hcommand : parseCommand (cstr (cstr (deleMessage username filename))) = .ok "dele".toList := by
    rw [hcstr, deleMessage_eq]
    exact parseCommand_append "dele".toList (by decide) (by decide) _
  have hrequest : writeRequest "dele".toList (cstr (cstr (deleMessage username filename))) =
      some (.ok (some fun commFd seqNum => Op.dele username filename commFd seqNum false)) := by
    rw [hcstr, ← deleRequest_append huser.1 filename]
    rfl
  obtain ⟨lru, hexec, hheap, hnodes, htablets, hvirmem⟩ := worker_exec hcommand hrequest hrun
  have hroom : s.lru.HasRoom (.dele username filename commFd 0 false) := trivial
  have hobeys := h.obeys_of_exec hroom hexec
  refine ⟨hobeys.sets.settled.congr hheap hnodes htablets hvirmem, ?_⟩
  rw [hobeys.sets.settled.filesOf_eq hheap hnodes htablets hvirmem, hobeys.sets.filesOf]
  exact (if_pos rfl).trans (Function.update_self ..)

end Chunkserver

namespace Frontend.Site

variable {mail : Page → Site → Request → Except Fault (Response × Site)} {fuel : Nat} {commFd : Int} {start site site' : Site}
  {req : Request} {response : Response} {event : Page × Request} {events : List (Page × Request)}

theorem sendToBackend_worker {s t : Chunkserver} {message : Str} {rep : List Str} (h : s.sendToBackend fuel commFd message = .ok (rep, t)) :
    s.worker fuel commFd (cstr message) = .ok t := by
  obtain ⟨t', hworker, h⟩ := Run.bind_eq_ok.mp h
  obtain ⟨_, _, h⟩ := Run.bind_eq_ok.mp h
  obtain ⟨_, rfl⟩ := Prod.mk.inj (Except.ok.inj h)
  exact hworker

theorem handleUpload_node (h : site.handleUpload fuel commFd req = .ok (response, site')) :
    ∃ filename fileContent, extractFileName req.body = .ok filename ∧ extractFileContent req.body = .ok fileContent ∧
      site.node.worker fuel commFd (cstr (putFileMessage site.userName filename fileContent)) = .ok site'.node := by
  rw [handleUpload] at h
  obtain ⟨dir, _, h⟩ := Run.bind_eq_ok.mp h
  obtain ⟨filename, hname, h⟩ := Run.bind_eq_ok.mp h
  obtain ⟨fileContent, hcontent, h⟩ := Run.bind_eq_ok.mp h
  obtain ⟨_, _, h⟩ := Run.bind_eq_ok.mp h
  obtain ⟨⟨_, node⟩, hsend, h⟩ := Run.bind_eq_ok.mp h
  obtain ⟨_, _, h⟩ := Run.bind_eq_ok.mp h
  obtain ⟨_, rfl⟩ := Prod.mk.inj (Except.ok.inj h)
  exact ⟨filename, fileContent, hname, hcontent, sendToBackend_worker hsend⟩

theorem deleteFile_node (h : site.deleteFile fuel commFd req = .ok (response, site')) :
    ∃ path, formFile req = .ok path ∧
      site.node.worker fuel commFd (cstr (deleMessage site.userName path)) = .ok site'.node := by
  rw [deleteFile] at h
  obtain ⟨path, hpath, h⟩ := Run.bind_eq_ok.mp h
  obtain ⟨_, _, h⟩ := Run.bind_eq_ok.mp h
  obtain ⟨dir, _, h⟩ := Run.bind_eq_ok.mp h
  obtain ⟨⟨_, node⟩, hsend, h⟩ := Run.bind_eq_ok.mp h
  obtain ⟨_, _, h⟩ := Run.bind_eq_ok.mp h
  obtain ⟨_, rfl⟩ := Prod.mk.inj (Except.ok.inj h)
  exact ⟨path, hpath, sendToBackend_worker hsend⟩

theorem createNewFolder_node (h : site.createNewFolder req = .ok (response, site')) : site'.node = site.node := by
  rw [createNewFolder] at h
  obtain ⟨_, _, h⟩ := Run.bind_eq_ok.mp h
  obtain ⟨_, _, h⟩ := Run.bind_eq_ok.mp h
  obtain ⟨_, _, h⟩ := Run.bind_eq_ok.mp h
  obtain ⟨_, rfl⟩ := Prod.mk.inj (Except.ok.inj h)
  rfl

theorem renameFile_node (h : site.renameFile req = .ok (response, site')) : site'.node = site.node := by
  rw [renameFile] at h
  obtain ⟨_, _, h⟩ := Run.bind_eq_ok.mp h
  obtain ⟨_, _, h⟩ := Run.bind_eq_ok.mp h
  obtain ⟨_, _, h⟩ := Run.bind_eq_ok.mp h
  obtain ⟨_, rfl⟩ := Prod.mk.inj (Except.ok.inj h)
  rfl

theorem moveFile_node (h : site.moveFile req = .ok (response, site')) : site'.node = site.node := by
  rw [moveFile] at h
  obtain ⟨_, _, h⟩ := Run.bind_eq_ok.mp h
  obtain ⟨_, _, h⟩ := Run.bind_eq_ok.mp h
  obtain ⟨_, _, h⟩ := Run.bind_eq_ok.mp h
  obtain ⟨_, rfl⟩ := Prod.mk.inj (Except.ok.inj h)
  rfl

theorem deleteFolder_node (h : site.deleteFolder req = .ok (response, site')) : site'.node = site.node := by
  rw [deleteFolder] at h
  obtain ⟨_, _, h⟩ := Run.bind_eq_ok.mp h
  obtain ⟨_, _, h⟩ := Run.bind_eq_ok.mp h
  obtain ⟨_, rfl⟩ := Prod.mk.inj (Except.ok.inj h)
  rfl

/-! ### One request after another -/

/-- An upload under a new name, which the node has room for. -/
structure UploadsNew (username : Str) (commFd : Int) (site : Site) (filename fileContent : Str) : Prop where
  comma : ',' ∉ filename
  nul : '\x00' ∉ fileContent
  plain : IsPlain filename
  new : home username ++ [filename] ∉ site.files.content
  free : home username ++ [filename] ∉ site.files.directories
  room : site.node.lru.HasRoom (.put username filename (fileContent ++ "\r\n".toList) commFd 0)

/-- A request that changes both copies or, but for markers, none. -/
inductive Mirrorable (username : Str) (commFd : Int) (site : Site) : Page × Request → Prop
  | handleUpload {req : Request}
      (hnew : ∀ filename fileContent, extractFileName req.body = .ok filename → extractFileContent req.body = .ok fileContent →
        UploadsNew username commFd site filename fileContent) : Mirrorable username commFd site (.handleUpload, req)
  | deleteFile (req : Request) : Mirrorable username commFd site (.deleteFile, req)
  | createNewFolder (req : Request) : Mirrorable username commFd site (.createNewFolder, req)
  | renameFile {req : Request}
      (hmarkers : ∀ foldername oldname newname, formNames req = .ok (foldername, oldname, newname) →
        Renames username site.files (nameIn foldername oldname) (nameIn foldername newname) →
        ".folder".toList <:+ nameIn foldername oldname ∧ ".folder".toList <:+ nameIn foldername newname) :
      Mirrorable username commFd site (.renameFile, req)
  | moveFile {req : Request}
      (hmarkers : ∀ filename oldfolder newfolder, formNames req = .ok (filename, oldfolder, newfolder) →
        Renames username site.files (nameIn oldfolder filename) (newfolder ++ '+' :: filename) →
        ".folder".toList <:+ nameIn oldfolder filename ∧ ".folder".toList <:+ newfolder ++ '+' :: filename) :
      Mirrorable username commFd site (.moveFile, req)
  | deleteFolder {req : Request}
      (hmarkers : ∀ name, home username ++ [name] ∈ site.files.content → name.head? ≠ some '.' →
        inFolder (afterEqual req.body) name = true → ".folder".toList <:+ name) : Mirrorable username commFd site (.deleteFolder, req)

/-- A request of a user that is answered. -/
structure Mirrors (mail : Page → Site → Request → Except Fault (Response × Site)) (commFd : Int) (username : Str) (site : Site)
    (event : Page × Request) (site' : Site) : Prop where
  answers : Answers mail commFd site event site'
  session : site.isAlreadyLogin event.2.cookies = some username
  names : ∀ calls, operations site.files (userDir username) event.2 event.1 = .ok calls →
    ∀ call ∈ calls, ∀ name ∈ call.names, IsName name
  mirrorable : Mirrorable username commFd site event

/-- The directory and the storage of a user hold the same files. -/
structure Mirrored (username : Str) (site : Site) : Prop where
  currUser : site.currUser = some (userDir username)
  dir : home username ∈ site.files.directories
  settled : site.node.lru.Settled
  agree : Agree username site.files (site.node.lru.filesOf username)

theorem onFiles_of_mirrorable (h : Mirrorable username commFd site event) : event.1.onFiles = true := by
  cases h <;> rfl

theorem Mirrored.store (h : Mirrored username site) (huser : ',' ∉ username ∧ '\x00' ∉ username) (hname : IsName filename)
    (hnew : UploadsNew username commFd site filename fileContent) (hcurrUser : site'.currUser = some (userDir username))
    (hfiles : site'.files = site.files.storeFile (userDir username) filename fileContent)
    (hworker : site.node.worker fuel commFd (cstr (putFileMessage username filename fileContent)) = .ok site'.node) :
    Mirrored username site' := by
  obtain ⟨hsettled, hstored⟩ := Chunkserver.worker_putFile huser ⟨hnew.comma, hname.nul⟩ hnew.nul h.settled hnew.room hworker
  have hlocal : site'.files = { site.files with content := site.files.content.insert (home username ++ [filename]) fileContent } := by
    rw [hfiles]
    exact (storeFile_entry huser.2 h.dir hname fileContent).trans (if_neg hnew.free)
  constructor
  · exact hcurrUser
  · rw [hlocal]
    exact h.dir
  · exact hsettled
  · rw [hstored]
    exact h.agree.store hnew.plain hnew.new (congrArg Files.content hlocal)

theorem Mirrored.remove (h : Mirrored username site) (huser : ',' ∉ username ∧ '\x00' ∉ username) (hname : IsName name)
    (hcurrUser : site'.currUser = some (userDir username)) (hfiles : site'.files = site.files.remove (userDir username ++ name))
    (hworker : site.node.worker fuel commFd (cstr (deleMessage username name)) = .ok site'.node) : Mirrored username site' := by
  obtain ⟨hsettled, hstored⟩ := Chunkserver.worker_deleteFile huser hname.nul h.settled hworker
  constructor
  · exact hcurrUser
  · rw [hfiles]
    exact home_mem_remove huser.2 hname h.dir
  · exact hsettled
  · rw [hstored]
    apply h.agree.remove
    rw [hfiles, remove_entry huser.2 hname]

/-- The storage is left alone, and in the directory all that is no marker. -/
theorem Mirrored.keep (h : Mirrored username site) (hcurrUser : site'.currUser = some (userDir username)) (hnode : site'.node = site.node)
    (hfiles : site'.files = files)
    (hkeeps : home username ∈ files.directories ∧ ∀ name, ¬ ".folder".toList <:+ name →
      files.content[home username ++ [name]]? = site.files.content[home username ++ [name]]?) : Mirrored username site' := by
  subst hfiles
  exact ⟨hcurrUser, hkeeps.1, hnode ▸ h.settled, hnode ▸ h.agree.congr hkeeps.2⟩

theorem Mirrors.step (huser : ',' ∉ username ∧ '\x00' ∉ username) (h : Mirrored username site)
    (hstep : Mirrors mail commFd username site event site') : Mirrored username site' := by
  obtain ⟨⟨hpage, _, fuel, response, hanswer⟩, hsession, hnames, hmirrorable⟩ := hstep
  have hfiles := onFiles_of_mirrorable hmirrorable
  obtain ⟨hcurrUser, dir, calls, hsame, hcalls, heq⟩ := respond_leaves (hpage ▸ hfiles) hanswer
  obtain rfl := Option.some.inj (h.currUser.symm.trans hsame)
  rw [hpage] at hcalls
  have hnames := hnames calls hcalls
  have hcurrUser' := hcurrUser.trans h.currUser
  rw [respond, hsession] at hanswer
  dsimp only [Option.getD_some] at hanswer
  rw [hpage] at hanswer
  cases hmirrorable with
  | handleUpload hnew =>
      obtain ⟨filename, hfilename, hcalls⟩ := Run.bind_eq_ok.mp hcalls
      obtain ⟨fileContent, hcontent, hcalls⟩ := Run.bind_eq_ok.mp hcalls
      obtain rfl := Except.ok.inj hcalls
      have hname := hnames _ List.mem_cons_self _ List.mem_cons_self
      obtain ⟨filename', fileContent', hfilename', hcontent', hworker⟩ := handleUpload_node hanswer
      obtain rfl := Except.ok.inj (hfilename.symm.trans hfilename')
      obtain rfl := Except.ok.inj (hcontent.symm.trans hcontent')
      exact h.store huser hname (hnew filename fileContent hfilename hcontent) hcurrUser' heq hworker
  | deleteFile req =>
      obtain ⟨path, hpath, hcalls⟩ := Run.bind_eq_ok.mp hcalls
      obtain rfl := Except.ok.inj hcalls
      have hname := hnames _ List.mem_cons_self _ List.mem_cons_self
      obtain ⟨path', hpath', hworker⟩ := deleteFile_node hanswer
      obtain rfl := Except.ok.inj (hpath.symm.trans hpath')
      exact h.remove huser hname hcurrUser' heq hworker
  | createNewFolder req =>
      obtain rfl := Except.ok.inj hcalls
      have hname := hnames _ List.mem_cons_self _ List.mem_cons_self
      have hnode := createNewFolder_node hanswer
      exact h.keep hcurrUser' hnode heq (newFolder_keeps huser.2 h.dir hname)
  | renameFile hmarkers =>
      obtain ⟨⟨foldername, oldname, newname⟩, hform, hcalls⟩ := Run.bind_eq_ok.mp hcalls
      obtain rfl := Except.ok.inj hcalls
      have hold := hnames _ List.mem_cons_self _ List.mem_cons_self
      have hnew := hnames _ List.mem_cons_self _ (List.mem_cons_of_mem _ List.mem_cons_self)
      have hnode := renameFile_node hanswer
      have hkeeps := rename_keeps huser.2 h.dir hold hnew (hmarkers foldername oldname newname hform)
      exact h.keep hcurrUser' hnode heq hkeeps
  | moveFile hmarkers =>
      obtain ⟨⟨filename, oldfolder, newfolder⟩, hform, hcalls⟩ := Run.bind_eq_ok.mp hcalls
      obtain rfl := Except.ok.inj hcalls
      have hold := hnames _ List.mem_cons_self _ List.mem_cons_self
      have hnew := hnames _ List.mem_cons_self _ (List.mem_cons_of_mem _ List.mem_cons_self)
      have hnode := moveFile_node hanswer
      have hkeeps := rename_keeps huser.2 h.dir hold hnew (hmarkers filename oldfolder newfolder hform)
      exact h.keep hcurrUser' hnode heq hkeeps
  | deleteFolder hmarkers =>
      obtain rfl := Except.ok.inj hcalls
      have hnode := deleteFolder_node hanswer
      have hkeeps := removeFolder_keeps huser.2 h.dir
        (fun name hmem => hnames _ (List.mem_cons_of_mem _ (List.mem_map_of_mem hmem)) name List.mem_cons_self) hmarkers
      apply h.keep hcurrUser' hnode _ hkeeps
      rw [heq, List.foldl_cons, List.foldl_map]
      rfl

/-- In every run of requests that change both copies or none, the copies agree. -/
theorem mirrored_of_runs (huser : ',' ∉ username ∧ '\x00' ∉ username) (hstart : Mirrored username start)
    (hrun : Run.Runs (Mirrors mail commFd username) start events site) :
    Agree username site.files (site.node.lru.filesOf username) := by
  have hmirrored : Mirrored username site :=
    Run.Runs.invariant (P := fun _ site => Mirrored username site) hstart (fun _ _ _ _ h hstep => hstep.step huser h) hrun
  exact hmirrored.agree

theorem mirrored_ownSite : Mirrored "a".toList ownSite := by
  obtain ⟨hsettled, hstore, _⟩ : Within (LRUCache.fresh 100 true) Store.empty 0 := within_fresh (by decide)
  have hhome : home "a".toList = ["a".toList] := by decide +kernel
  refine ⟨rfl, hhome ▸ (by decide +kernel), hsettled, fun name => ?_⟩
  have hstored : ownSite.node.lru.filesOf "a".toList = ∅ := congrFun hstore "a".toList
  have hlocal : localFile "a".toList ownSite.files name = none := by
    rw [localFile]
    split
    · rfl
    · exact ExtTreeMap.getElem?_empty
  rw [hstored, hlocal, storedFile]
  split
  · rfl
  · exact ExtTreeMap.getElem?_empty

def deletes (filename : String) : Page × Request :=
  (.deleteFile, post "/deletefile" ("foldername=&filename=" ++ filename) (cookieOf "a"))

theorem operations_deletes (site : Site) : operations site.files (userDir "a".toList) (deletes "x").2 (deletes "x").1 =
    .ok [.remove "x".toList] := by
  have hpath : formFile (deletes "x").2 = .ok "x".toList := by decide +kernel
  change (formFile (deletes "x").2 >>= _) = _
  rw [hpath]
  rfl

/-- Whether the file may be uploaded. -/
def TakesFile (site : Site) : Prop :=
  home "a".toList ++ ["x".toList] ∉ site.files.content ∧ home "a".toList ++ ["x".toList] ∉ site.files.directories ∧
    site.node.lru.HasRoom (.put "a".toList "x".toList "hi\r\n".toList 7 0)

instance (site : Site) : Decidable (TakesFile site) := inferInstanceAs (Decidable (_ ∧ _ ∧ _))

theorem mirrorable_upload (h : TakesFile site) : Mirrorable "a".toList 7 site (.handleUpload, upload "a") := by
  obtain ⟨hnew, hfree, hroom⟩ := h
  refine .handleUpload fun filename fileContent hfilename hfileContent => ?_
  have hname : extractFileName (upload "a").body = .ok "x".toList := by decide +kernel
  have hcontent : extractFileContent (upload "a").body = .ok "hi".toList := by decide +kernel
  obtain rfl := Except.ok.inj (hfilename.symm.trans hname)
  obtain rfl := Except.ok.inj (hfileContent.symm.trans hcontent)
  exact ⟨by decide, by decide, ⟨by decide, by decide⟩, hnew, hfree, hroom⟩

/-- A file is uploaded, deleted and uploaded again, and a folder is created in between. -/
def visitsOfOwner : List (Page × Request) :=
  [(.handleUpload, upload "a"), creates "docs", deletes "x", (.handleUpload, upload "a")]

theorem mirrors_visits (hanswer : Answers noMail 7 site event site') (hevent : event ∈ visitsOfOwner)
    (hsession : site.isAlreadyLogin event.2.cookies = some "a".toList) (htakes : event.1 = .handleUpload → TakesFile site) :
    Mirrors noMail 7 "a".toList site event site' := by
  refine ⟨hanswer, hsession, ?_, ?_⟩
  · intro calls hcalls call hcall name hname
    simp only [visitsOfOwner, List.mem_cons, List.not_mem_nil, or_false] at hevent
    rcases hevent with rfl | rfl | rfl | rfl
    · exact (named_upload site calls hcalls call hcall name hname).1
    · exact (named_creates site calls hcalls call hcall name hname).1
    · rw [operations_deletes] at hcalls
      obtain rfl := Except.ok.inj hcalls
      rw [List.mem_singleton.mp hcall] at hname
      rw [List.mem_singleton.mp hname]
      decide
    · exact (named_upload site calls hcalls call hcall name hname).1
  · simp only [visitsOfOwner, List.mem_cons, List.not_mem_nil, or_false] at hevent
    rcases hevent with rfl | rfl | rfl | rfl
    · exact mirrorable_upload (htakes rfl)
    · exact .createNewFolder _
    · exact .deleteFile _
    · exact mirrorable_upload (htakes rfl)

def mirrorAll (site : Site) (events : List (Page × Request)) : Except Fault Site :=
  events.foldlM (fun site event =>
    if site.page event.2 = event.1 ∧ site.isAlreadyLogin event.2.cookies = some "a".toList ∧
        (event.1 = .handleUpload → TakesFile site) then
      (site.respond (folderPages noMail 5 7) 5 7 event.2).map Prod.snd
    else .error .exited) site

theorem runs_of_mirrorAll (h : mirrorAll start visitsOfOwner = .ok site) :
    Run.Runs (Mirrors noMail 7 "a".toList) start visitsOfOwner site := by
  refine Run.Runs.of_foldlM (fun event hevent site site' hstep => ?_) h
  have hhandled : ∀ event ∈ visitsOfOwner, event.1.onFiles = true ∨ event.1.onAccounts = true := by decide
  split at hstep
  · next hmet =>
      obtain ⟨hpage, hsession, htakes⟩ := hmet
      cases hrespond : site.respond (folderPages noMail 5 7) 5 7 event.2 with
      | error fault =>
          rw [hrespond] at hstep
          cases hstep
      | ok answer =>
          rw [hrespond] at hstep
          obtain rfl := Except.ok.inj hstep
          exact mirrors_visits ⟨hpage, hhandled event hevent, 5, answer.1, hrespond⟩ hevent hsession htakes
  · cases hstep

theorem mirrored_of_runs_visits : ∃ site, Run.Runs (Mirrors noMail 7 "a".toList) ownSite visitsOfOwner site ∧
    (site.node.lru.filesOf "a".toList)["x".toList]? = some "hi\r\n".toList ∧
      Agree "a".toList site.files (site.node.lru.filesOf "a".toList) := by
  obtain ⟨site, hmirrors, hends⟩ := exists_of_toOption_any
    (show (mirrorAll ownSite visitsOfOwner).toOption.any
      (fun site => decide ((site.node.lru.filesOf "a".toList)["x".toList]? = some "hi\r\n".toList)) = true by decide +kernel)
  have hrun := runs_of_mirrorAll hmirrors
  exact ⟨site, hrun, of_decide_eq_true hends, mirrored_of_runs (by decide) mirrored_ownSite hrun⟩

def renames (oldname newname : String) : Page × Request :=
  (.renameFile, post "/renamefile" ("foldername=&oldname=" ++ oldname ++ "&newname=" ++ newname) (cookieOf "a"))

/-- Whether a file is stored that is not in the directory. -/
def leftBehind (site : Site) : Bool :=
  decide ((site.node.lru.filesOf "a".toList)["x".toList]? = some "hi\r\n".toList ∧ site.files.content[["a".toList, "x".toList]]? = none)

/-- A file is uploaded and then renamed. -/
theorem not_mirrored_rename : ∃ site, Mirrored "a".toList ownSite ∧
    Run.Runs (Answers noMail 7) ownSite [(.handleUpload, upload "a"), renames "x" "y"] site ∧
      ¬ Agree "a".toList site.files (site.node.lru.filesOf "a".toList) := by
  obtain ⟨site, hanswers, hends⟩ := exists_of_toOption_any
    (show (answerAll ownSite [(.handleUpload, upload "a"), renames "x" "y"]).toOption.any leftBehind = true by decide +kernel)
  obtain ⟨hstored, hlocal⟩ := of_decide_eq_true hends
  refine ⟨site, mirrored_ownSite, (runs_of_answerAll (by decide) hanswers).mono fun _ _ _ hstep => hstep.2, fun hagree => ?_⟩
  have hhome : home "a".toList = ["a".toList] := by decide +kernel
  have hplain : IsPlain "x".toList := ⟨by decide, by decide⟩
  have hx := hagree "x".toList
  rw [storedFile_of_isPlain hplain, localFile_of_isPlain hplain, hstored, hhome] at hx
  rw [show ["a".toList] ++ ["x".toList] = ["a".toList, "x".toList] from rfl, hlocal] at hx
  cases hx

end Frontend.Site

end PennCloud
