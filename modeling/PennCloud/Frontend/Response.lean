import PennCloud.Frontend.Store
import PennCloud.Frontend.Utils

/-!
# Answers to requests

`response.cc`: the constructor of `Response` chooses the page for a request, and the pages for visitors and for the
files of a user that also go to the storage. The pages of the admin console, of the mail and of the folders are a
parameter. A pointer into a string that is gone is taken to hold the string.
-/

namespace PennCloud.Frontend

structure Request where
  method : Str
  path : Str
  httpVersion : Str
  contentLength : Int
  cookies : Map Str
  body : Str

structure Response where
  httpVersion : Str
  status : Str
  headers : Map Str
  body : Str

/-- The globals of a frontend, the files it works on, and the node that its users are stored on. -/
structure Site where
  files : Files
  sessions : Std.ExtTreeSet Str
  userName : Str
  currUser : Option Str
  node : Chunkserver

/-- The branches of the constructor. -/
inductive Page where
  | file | adminConsole | reg | login | upload | handleUpload | downloadFile | download | createNewFolder | renameFile
  | deleteFile | deleteFolder | moveFile | sendEmail | handleSendEmail | inbox | viewEmail | forwardEmail | replyEmail
  | deleteEmail | logout | nothing
  deriving DecidableEq, Repr

namespace Response

/-- A response before a page is chosen. -/
def start (req : Request) : Response :=
  ⟨req.httpVersion, [], (∅ : Map Str).insert "Connection: ".toList "close".toList, []⟩

/-- `status` and `Content-Type` of a page. -/
def typed (response : Response) (type : String) : Response :=
  { response with
    status := "200 OK".toList
    headers := response.headers.insert "Content-Type: ".toList type.toList }

/-- The body, and its length as a header. -/
def withBody (response : Response) (body : Str) : Response :=
  { response with
    headers := response.headers.insert "Content-Length: ".toList (toStr body.length)
    body := body }

end Response

namespace Site

open Chunkserver

/-- Whether the cookies name a session, and the name. -/
def isAlreadyLogin (site : Site) (cookies : Map Str) : Option Str :=
  match cookies["sessionid".toList]? with
  | some id => if site.sessions.contains id then some id else none
  | none => none

/-- The page for a path and a method, once static files are out of the way. -/
def memberPage (req : Request) : Page :=
  if req.path = "/upload".toList then
    if req.method = "GET".toList then .upload else if req.method = "POST".toList then .handleUpload else .nothing
  else if req.path.take 10 = "/download?".toList then .downloadFile
  else if req.path.take 9 = "/download".toList then .download
  else if req.path = "/newfolder".toList then .createNewFolder
  else if req.path = "/renamefile".toList then .renameFile
  else if req.path = "/deletefile".toList then .deleteFile
  else if req.path = "/deletefolder".toList then .deleteFolder
  else if req.path = "/movefile".toList then .moveFile
  else if req.path = "/sendemail".toList then
    if req.method = "GET".toList then .sendEmail
    else if req.method = "POST".toList then .handleSendEmail else .nothing
  else if req.path = "/inbox".toList then .inbox
  else if req.path.take 10 = "/viewemail".toList then .viewEmail
  else if req.path.take 8 = "/forward".toList then .forwardEmail
  else if req.path.take 11 = "/replyemail".toList then .replyEmail
  else if req.path.take 12 = "/deleteemail".toList then .deleteEmail
  else if req.path = "/logout".toList then .logout
  else .login

def page (site : Site) (req : Request) : Page :=
  if req.path ≠ "/".toList ∧ site.files.isFileExist ('.' :: req.path) then .file
  else if req.path = "/adminconsole".toList then .adminConsole
  else if req.path = "/register".toList then .reg
  else if req.path = "/login".toList then .login
  else if site.isAlreadyLogin req.cookies = none then .login
  else memberPage req

/-! ### Pages -/

def file (site : Site) (req : Request) (filename : Str) : Except Fault Response := do
  debug filename
  let fileContent ← site.files.getFileContent filename
  .ok (((Response.start req).typed "text/plain").withBody fileContent)

/-- A page that shows one of the files of the site. -/
def shows (site : Site) (req : Request) (filename : String) : Except Fault Response := do
  let body ← site.files.getFileContent filename.toList
  .ok (((Response.start req).typed "text/html").withBody body)

/-- The values of the first two fields of a form, as `reg` and `login` take them. -/
def credentials (req : Request) : Except Fault (Str × Str) := do
  let params := split (cstr req.body) '&'
  let username ← atIdx params 0
  let username ← atIdx (split username '=') 1
  let password ← atIdx params 1
  let password ← atIdx (split password '=') 1
  .ok (username, password)

def reg (fuel : Nat) (commFd : Int) (site : Site) (req : Request) : Except Fault (Response × Site) := do
  if req.method = "GET".toList then
    let response ← site.shows req "html/register.html"
    .ok (response, site)
  else if req.method = "POST".toList then
    let (username, password) ← credentials req
    let site := { site with files := site.files.makeDir username, currUser := some (username ++ ['/']) }
    let (exist, node) ← site.node.isUserExist fuel commFd username
    if exist then
      let response ← site.shows req "html/user-already-exist.html"
      .ok (response, { site with node := node })
    else
      let node ← node.addUser fuel commFd username password
      let response ← site.shows req "html/new-user.html"
      .ok (response, { site with node := node })
  else .ok ((Response.start req).typed "text/html", site)

/-- The home page of a user, which sets the cookie. -/
def userHome (site : Site) (response : Response) (username : Str) : Except Fault Response := do
  let body ← site.files.getFileContent "html/user-home.html".toList
  let response := response.withBody (replaceAll body "$username".toList username)
  .ok { response with headers := response.headers.insert "Set-Cookie: ".toList ("sessionid=".toList ++ username) }

def login (fuel : Nat) (commFd : Int) (site : Site) (req : Request) : Except Fault (Response × Site) := do
  let session := site.isAlreadyLogin req.cookies
  let response := (Response.start req).typed "text/html"
  if req.method = "GET".toList ∧ session = none then
    let response ← site.shows req "html/login.html"
    .ok (response, site)
  else if req.method = "POST".toList then
    let (username, password) ← credentials req
    let (valid, node) ← site.node.isLoginValid fuel commFd username password
    if valid then
      let response ← site.userHome response username
      .ok (response, { site with node := node, sessions := site.sessions.insert username })
    else
      let response ← site.shows req "html/login-failed.html"
      -- a visitor with a session is shown the home page all the same
      match session with
      | some _ => do
          let response ← site.userHome response username
          .ok (response, { site with node := node })
      | none => .ok (response, { site with node := node })
  else
    match session with
    | some username => do
        let response ← site.userHome response username
        .ok (response, site)
    | none => .ok (response, site)

def putFileMessage (username filename fileContent : Str) : Str :=
  "put ".toList ++ username ++ ',' :: filename ++ ',' :: fileContent ++ "\r\n".toList

def handleUpload (fuel : Nat) (commFd : Int) (site : Site) (req : Request) : Except Fault (Response × Site) := do
  let dir ← deref site.currUser
  let filename ← extractFileName req.body
  let fileContent ← extractFileContent req.body
  debug (dir ++ filename)
  let site := { site with files := site.files.storeFile dir filename fileContent }
  let (_, node) ← site.node.sendToBackend fuel commFd (putFileMessage site.userName filename fileContent)
  let response ← site.shows req "html/upload.html"
  .ok (response, { site with node := node })

def deleMessage (username filename : Str) : Str := "dele ".toList ++ username ++ ',' :: filename ++ "\r\n".toList

/-- The path of a file that a form names by its folder and its name. -/
def formFile (req : Request) : Except Fault Str := do
  let tokens := split (cstr req.body) '&'
  let foldername ← atIdx tokens 0
  let filename ← atIdx tokens 1
  let foldername := afterEqual foldername
  .ok ((if foldername = [] then [] else foldername ++ ['+']) ++ afterEqual filename)

def deleteFile (fuel : Nat) (commFd : Int) (site : Site) (req : Request) : Except Fault (Response × Site) := do
  let path ← formFile req
  let tokens := split (cstr req.body) '&'
  let filename ← atIdx tokens 1
  let dir ← deref site.currUser
  let site := { site with files := site.files.remove (dir ++ path) }
  let (_, node) ← site.node.sendToBackend fuel commFd (deleMessage site.userName path)
  let body ← site.files.getFileContent "html/delete-file-success.html".toList
  let body := replaceAll body "$filename".toList (afterEqual filename)
  .ok (((Response.start req).typed "text/html").withBody body, { site with node := node })

/-- The constructor of `Response`, for the pages in `others` that are not above. -/
def respond (others : Page → Site → Request → Except Fault (Response × Site)) (fuel : Nat) (commFd : Int) (site : Site)
    (req : Request) : Except Fault (Response × Site) :=
  -- the search for a session leaves its user in a global
  let member := { site with userName := (site.isAlreadyLogin req.cookies).getD site.userName }
  match site.page req with
  | .file => do
      let response ← site.file req ('.' :: req.path)
      .ok (response, site)
  | .reg => site.reg fuel commFd req
  | .login => do
      let site := if req.path = "/login".toList then site else member
      site.login fuel commFd req
  | .upload => do
      let response ← member.shows req "html/upload.html"
      .ok (response, member)
  | .handleUpload => member.handleUpload fuel commFd req
  | .deleteFile => member.deleteFile fuel commFd req
  | .logout => do
      let member := { member with sessions := member.sessions.erase member.userName }
      member.login fuel commFd req
  | .nothing => .ok (Response.start req, member)
  | .adminConsole => others .adminConsole site req
  | page => others page member req

end Site

end PennCloud.Frontend
