import Mathlib.Data.List.Infix
import PennCloud.Frontend.Response

/-!
# Folders

The pages of `response.cc` for folders, and the listing of the files. A folder is a marker file, and the files in it have
its name and a `+` in front of theirs.
-/

namespace PennCloud.Frontend.Site

def markerOf (foldername : Str) : Str := foldername ++ ".folder".toList

/-- Whether `delete_folder` removes a file: without a name it removes them all. -/
def inFolder (foldername file : Str) : Bool :=
  foldername = [] || file = markerOf foldername || (foldername ++ ['+']) <:+: file

/-- The loop of `delete_folder` over the names in the directory. -/
def removeFolder (files : Files) (dir foldername : Str) : Files :=
  (files.listAllFiles dir).foldl
    (fun files file => if inFolder foldername file then files.remove (dir ++ file) else files) files

def deleteFolder (site : Site) (req : Request) : Except Fault (Response × Site) := do
  let foldername := afterEqual req.body
  let dir ← deref site.currUser
  let site := { site with files := removeFolder site.files dir foldername }
  let body ← site.files.getFileContent "html/delete-folder-success.html".toList
  let body := replaceAll body "$foldername".toList foldername
  .ok (((Response.start req).typed "text/html").withBody body, site)

def createNewFolder (site : Site) (req : Request) : Except Fault (Response × Site) := do
  let foldername := markerOf (afterEqual req.body)
  let dir ← deref site.currUser
  debug (dir ++ foldername)
  let site := { site with files := site.files.storeFile dir foldername [] }
  let body ← site.files.getFileContent "html/create-new-folder-success.html".toList
  let body := replaceAll body "$foldername".toList foldername
  .ok (((Response.start req).typed "text/html").withBody body, site)

/-- The values of the first three fields of a form, as `rename_file` and `move_file` take them. -/
def formNames (req : Request) : Except Fault (Str × Str × Str) := do
  let tokens := split (cstr req.body) '&'
  let first ← atIdx tokens 0
  let second ← atIdx tokens 1
  let third ← atIdx tokens 2
  .ok (afterEqual first, afterEqual second, afterEqual third)

/-- The name of a file in the directory. -/
def nameIn (foldername filename : Str) : Str := if foldername = [] then filename else foldername ++ '+' :: filename

def renameFile (site : Site) (req : Request) : Except Fault (Response × Site) := do
  let (foldername, oldname, newname) ← formNames req
  let dir ← deref site.currUser
  let site := { site with files := site.files.rename (dir ++ nameIn foldername oldname) (dir ++ nameIn foldername newname) }
  let body ← site.files.getFileContent "html/rename-file-success.html".toList
  let body := replaceAll body "$oldname".toList oldname
  let body := replaceAll body "$newname".toList newname
  .ok (((Response.start req).typed "text/html").withBody body, site)

def moveFile (site : Site) (req : Request) : Except Fault (Response × Site) := do
  let (filename, oldfolder, newfolder) ← formNames req
  let dir ← deref site.currUser
  let site := { site with files := site.files.rename (dir ++ nameIn oldfolder filename) (dir ++ newfolder ++ '+' :: filename) }
  let body ← site.files.getFileContent "html/move-file-success.html".toList
  let body := replaceAll body "$filename".toList filename
  let body := replaceAll body "$newfolder".toList newfolder
  .ok (((Response.start req).typed "text/html").withBody body, site)

/-! ### Listings -/

/-- The name that the page of a folder shows for a file. -/
def shownIn (foldername file : Str) : Option Str :=
  if (foldername ++ ['+']) <:+: file then
    let savedFilename := file.drop (findStr ['+'] file + 1)
    if file = foldername ++ '+' :: savedFilename then some savedFilename else none
  else none

/-- What the page of the root shows for a file. -/
inductive Shown where
  | file (name : Str)
  | folder (name : Str)
  | nothing
  deriving DecidableEq, Repr

def shownAtRoot (dir file : Str) : Shown :=
  if file.contains '+' then .nothing
  else if ".folder".toList <:+: dir ++ file then
    -- a length below that of the ending wraps
    .folder (if file.length < 7 then file else file.take (file.length - 7))
  else .file file

def link (path text : Str) : Str :=
  "<a href=\"".toList ++ path ++ "\" class=\"list-group-item\" >".toList ++ text ++ "</a>".toList

/-- The links to the files of a folder. -/
def folderLinks (dir foldername : Str) (files : List Str) : Str :=
  files.flatMap fun file =>
    match shownIn foldername file with
    | some savedFilename => link ('?' :: dir ++ file) savedFilename
    | none => []

def fileLinks (dir : Str) (files : List Str) : Str :=
  files.flatMap fun file =>
    match shownAtRoot dir file with
    | .file name => link ('?' :: dir ++ name) name
    | _ => []

def rootLinks (dir : Str) (files : List Str) : Str :=
  files.flatMap fun file =>
    match shownAtRoot dir file with
    | .folder name => link ("download/".toList ++ name) name
    | _ => []

def getlistMessage (username : Str) : Str := "getlist ".toList ++ username ++ ",file\r\n".toList

def download (fuel : Nat) (commFd : Int) (site : Site) (req : Request) : Except Fault (Response × Site) := do
  let dir ← deref site.currUser
  let currFolder ← substr req.path 9 npos
  let (_, node) ← site.node.sendToBackend fuel commFd (getlistMessage site.userName)
  let files := site.files.listAllFiles dir
  if currFolder ≠ [] then
    -- the first byte is the slash
    let body ← site.files.getFileContent "html/download-subfolder.html".toList
    let body := replaceAll body "$allDownloadFiles".toList (folderLinks dir (currFolder.drop 1) files)
    .ok (((Response.start req).typed "text/html").withBody body, { site with node := node })
  else
    let body ← site.files.getFileContent "html/download.html".toList
    let body := replaceAll body "$allDownloadFiles".toList (fileLinks dir files)
    let body := replaceAll body "$allFolders".toList (rootLinks dir files)
    .ok (((Response.start req).typed "text/html").withBody body, { site with node := node })

/-- The pages for folders, and for the others those in `mail`. -/
def folderPages (mail : Page → Site → Request → Except Fault (Response × Site)) (fuel : Nat) (commFd : Int) :
    Page → Site → Request → Except Fault (Response × Site)
  | .download, site, req => site.download fuel commFd req
  | .createNewFolder, site, req => site.createNewFolder req
  | .renameFile, site, req => site.renameFile req
  | .deleteFolder, site, req => site.deleteFolder req
  | .moveFile, site, req => site.moveFile req
  | page, site, req => mail page site req

end PennCloud.Frontend.Site
