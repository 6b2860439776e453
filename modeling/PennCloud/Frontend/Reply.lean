import PennCloud.Frontend.AdminConsole
import PennCloud.Frontend.Folders
import PennCloud.Frontend.Mail
import PennCloud.Frontend.Request
import PennCloud.Lib.Message

/-!
# A frontend on the wire

`client_handler` of `frontend.cc` with `Response::reply`, and the pages of `response.cc` for downloads, for the form of a mail and
for the console. What a frontend is told from outside is an argument.
-/

namespace PennCloud.Frontend

/-- The tables of the console. They stay from one visit to the next. -/
structure Console where
  frontendServers : Std.ExtTreeMap Int AdminConsole.Server
  backendServers : AdminConsole.BackendServers

/-- What a frontend is told while it answers a request. -/
structure Outside where
  /-- memory that nobody has written to -/
  malloced : Nat → Char
  /-- `content_length` of a request without that header -/
  contentLength : Int
  /-- `ii` of `url_decode` before a number is read -/
  ii : Int
  currTime : Str
  /-- where the end of a directory is -/
  directorySize : Int
  /-- the servers that accept a connection -/
  accepts : Str → Int → Bool
  /-- the answer of the master to `A` -/
  feedback : Str
  /-- the answer of the master to `U` and an address -/
  usersOf : Str → Str
  console : Console

/-! ### Downloads -/

namespace Site

/-- `file_size`. Nothing opened counts as -1, and the size of a file is cut to an `int`. -/
def fileSize (around : Outside) (files : Files) (filename : Str) : Int :=
  match files.ifstream filename with
  | some (.file content) => toInt32 content.length
  | some .directory => toInt32 around.directorySize
  | none => -1

def typeOfFile (filePath : Str) : String :=
  if "jpeg".toList <:+: filePath ∨ "jpg".toList <:+: filePath then "image/jpeg"
  else if "png".toList <:+: filePath then "image/png"
  else if "pdf".toList <:+: filePath then "application/pdf"
  else "text/plain"

/-- The bytes of the buffer behind the loop of `download_file`. A stream for reading and writing does not open on a directory. -/
def fileBytes (around : Outside) (files : Files) (filename : Str) (filesize : Nat) : Str :=
  match files.ifstream filename with
  | some (.file content) => content.take filesize
  | some .directory => (List.range filesize).map around.malloced
  | none => []

def downloadFile (around : Outside) (site : Site) (req : Request) : Except Fault (Response × Site) := do
  let filePath ← substr req.path 10 npos
  let filesize := fileSize around site.files filePath
  let response := (Response.start req).typed (typeOfFile filePath)
  .ok ({ response with
    headers := response.headers.insert "Content-Length: ".toList (toStr filesize)
    body := fileBytes around site.files filePath filesize.toNat }, site)

end Site

/-! ### The console -/

namespace Console

/-- The lines of the servers. A stream gives none of a directory. -/
def servers (files : Files) (filename : Str) : Str :=
  match files.ifstream filename with
  | some (.file content) => content
  | _ => []

/-- `parse_frontend_servers`, for the content of the file. -/
def parseFrontendServers (content : Str) (table : Std.ExtTreeMap Int AdminConsole.Server) :
    Except Fault (Int × Std.ExtTreeMap Int AdminConsole.Server) := do
  let (id, table) ← (split content '\n').foldlM (fun (id, table) line =>
    match Fields.cut ':' line with
    | none => .error .exited
    | some (ipAddr, port) => .ok (id + 1, table.insert id ⟨id, ipAddr, atoi (cstr port), false, 0⟩)) (1, table)
  .ok (id - 1, table)

/-- An entry that `operator[]` makes. -/
def blank : AdminConsole.Server := ⟨0, [], 0, false, 0⟩

/-- A connection to each server of a table, by its number. -/
def probe (around : Outside) (table : Std.ExtTreeMap Int AdminConsole.Server) : Std.ExtTreeMap Int AdminConsole.Server :=
  (List.range table.size).foldl (fun table i =>
    let server := table.getD (i + 1 : Nat) blank
    table.insert (i + 1 : Nat) { server with running := around.accepts server.ip server.port }) table

def address (server : AdminConsole.Server) : Str := server.ip ++ ':' :: toStr server.port

def statusCells (server : AdminConsole.Server) : Str :=
  if server.running then
    "<td class=\"success\">".toList ++ address server ++ "</td><td class=\"success\">Active</td>".toList
  else "<td class=\"danger\">".toList ++ address server ++ "</td><td class=\"danger\">Down</td>".toList

def frontendRows (table : Std.ExtTreeMap Int AdminConsole.Server) : Str :=
  (List.range table.size).flatMap fun i =>
    "<tr>".toList ++ statusCells (table.getD (i + 1 : Nat) blank) ++ "</tr>".toList

/-- A row with the lines of a reply. -/
def replyRow (name : Str) (title : String) (rep : List Str) : Str :=
  "<tr><td>".toList ++ name ++ title.toList ++ "</td>".toList ++
    (rep.flatMap fun s => "<td>".toList ++ s ++ "</td>".toList) ++ "</tr>".toList

def getfileMessage (username : Str) : Str := "getfile ".toList ++ username ++ "\r\n".toList

/-- The mails and the files of a user. -/
def userRows (fuel : Nat) (commFd : Int) (node : Chunkserver) (name : Str) : Except Fault (Str × Chunkserver) := do
  let (emails, node) ← node.sendToBackend fuel commFd (getEmailsMessage name)
  let (files, node) ← node.sendToBackend fuel commFd (getfileMessage name)
  .ok (replyRow name " emails:" emails ++ replyRow name " files and pwd:" files, node)

/-- The users that the master names, as they fit into `char feedback[5000]`. -/
def namesAt (around : Outside) (server : AdminConsole.Server) : List Str :=
  (split (cstr ((around.usersOf (address server)).take 4999)) ',').filter (· ≠ [])

/-- The row of a storage node, with those of its users when it is up. -/
def backendRow (around : Outside) (fuel : Nat) (commFd : Int) (node : Chunkserver) (server : AdminConsole.Server) :
    Except Fault (Str × Chunkserver) := do
  let (users, node) ← (if server.running then namesAt around server else []).foldlM (fun (text, node) name => do
    let (rows, node) ← userRows fuel commFd node name
    .ok (text ++ rows, node)) (([] : Str), node)
  .ok ("<tr>".toList ++ statusCells server ++ users ++ "</tr>".toList, node)

end Console

namespace Site

def adminConsole (around : Outside) (fuel : Nat) (commFd : Int) (site : Site) (req : Request) :
    Except Fault (Response × Console × Site) := do
  let (_, frontendServers) ←
    Console.parseFrontendServers (Console.servers site.files "servers.txt".toList) around.console.frontendServers
  let frontendServers := Console.probe around frontendServers
  let (_, backendServers) ←
    AdminConsole.parseBackendServers (AdminConsole.feedback around.feedback) around.console.backendServers
  let backendServers := Console.probe around backendServers
  let (backend, node) ← (List.range backendServers.size).foldlM (fun (text, node) i => do
    let (row, node) ← Console.backendRow around fuel commFd node (backendServers.getD (i + 1 : Nat) Console.blank)
    .ok (text ++ row, node)) (([] : Str), site.node)
  let body ← site.files.getFileContent "html/admin-console.html".toList
  let body := replaceAll body "$frontend".toList (Console.frontendRows frontendServers)
  let body := replaceAll body "$backend".toList backend
  .ok (((Response.start req).typed "text/html").withBody body, ⟨frontendServers, backendServers⟩, { site with node := node })

/-! ### All pages -/

/-- The pages that are not in the constructor and not about folders. What goes to the mail server and what becomes of the tables of
the console are not in the answer. -/
def mailPages (around : Outside) (fuel : Nat) (commFd : Int) : Page → Site → Request → Except Fault (Response × Site)
  | .adminConsole, site, req => do
      let (response, _, site) ← site.adminConsole around fuel commFd req
      .ok (response, site)
  | .downloadFile, site, req => site.downloadFile around req
  | .sendEmail, site, req => do
      let response ← site.shows req "html/send-email.html"
      .ok (response, site)
  | .handleSendEmail, site, req => do
      let (_, response) ← site.handleSendEmail around.ii around.currTime req
      .ok (response, site)
  | .inbox, site, req => site.inbox fuel commFd req
  | .viewEmail, site, req => site.viewEmail fuel commFd req
  | .forwardEmail, site, req => site.forwardEmail fuel commFd req
  | .replyEmail, site, req => site.replyEmail fuel commFd req
  | .deleteEmail, site, req => site.deleteEmail around.ii fuel commFd req
  | _, site, req => .ok (Response.start req, site)

/-- The constructor of `Response` with all its pages. -/
def answer (around : Outside) (fuel : Nat) (commFd : Int) (site : Site) (req : Request) : Except Fault (Response × Site) :=
  site.respond (folderPages (mailPages around fuel commFd) fuel commFd) fuel commFd req

end Site

/-! ### The bytes of a reply -/

namespace Response

/-- The status line and the headers, in the order of the map. -/
def lines (response : Response) : List Str :=
  (response.httpVersion ++ ' ' :: response.status) :: response.headers.toList.map fun header => header.1 ++ header.2

/-- What `reply` writes. The head goes through a `char*`, and the body does not. -/
def reply (response : Response) : Str := cstr (Message.head "\r\n".toList response.lines) ++ response.body

end Response

/-- `client_handler`: what is written before the connection is closed. -/
def clientHandler (around : Outside) (fuel : Nat) (commFd : Int) (site : Site) (socket : Socket) :
    Except Fault (Str × Site) := do
  let (req, _) ← Request.read around.malloced around.contentLength socket
  match req with
  | none => .ok ([], site)
  | some req => do
      let (response, site) ← site.answer around fuel commFd req
      .ok (response.reply, site)

/-! ### A client -/

/-- What a client takes from a reply. -/
structure Received where
  lines : List Str
  body : Str
  deriving DecidableEq

/-- The number in the first header that gives a length. -/
def lengthIn (headers : List Str) : Option Int :=
  (headers.find? fun header => header.take 16 = "Content-Length: ".toList).map fun header => (leadingInt (header.drop 16)).getD 0

/-- A client that reads lines up to the empty one, and behind it as many bytes as a header says. Without such a header all bytes up
to the end of the connection belong to the body. -/
def receive (bytes : Str) : Option Received := do
  let (lines, rest) ← Message.readHead "\r\n".toList bytes
  match lengthIn lines.tail with
  | none => some ⟨lines, rest⟩
  | some length => if 0 ≤ length ∧ length.toNat ≤ rest.length then some ⟨lines, rest.take length.toNat⟩ else none

end PennCloud.Frontend
