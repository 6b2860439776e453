import PennCloud.Frontend.Response

/-!
# Mail pages

The pages of `response.cc` for mail, with `url_decode`. The time that is written into a mail is an argument, and so is
the content of the variable that a `%` without a number leaves as it is.
-/

namespace PennCloud.Frontend

/-! ### Decoding -/

def hexValue (c : Char) : Option Nat :=
  if c.isDigit then some (c.toNat - '0'.toNat)
  else if 'a' ≤ c ∧ c ≤ 'f' then some (c.toNat - 'a'.toNat + 10)
  else if 'A' ≤ c ∧ c ≤ 'F' then some (c.toNat - 'A'.toNat + 10)
  else none

/-- The number that `%x` reads of two bytes: blanks and a sign may stand in front of the digits. -/
def scanHex (s : Str) : Option Int :=
  let (negative, s) := splitSign (s.dropWhile isSpace)
  let digits := (s.takeWhile fun c => (hexValue c).isSome).filterMap hexValue
  if digits = [] then none
  else
    let n : Int := (digits.foldl (fun n digit => 16 * n + digit) 0 : Nat)
    some (if negative then -n else n)

/-- `static_cast<char>(ii)` -/
def toChar (ii : Int) : Char := Char.ofNat (ii % 256).toNat

def urlDecode (ii : Int) : Str → Str
  | '%' :: a :: b :: rest =>
      let ii := (scanHex [a, b]).getD ii
      toChar ii :: urlDecode ii rest
  | '%' :: rest => [toChar ((scanHex rest).getD ii)]
  | c :: rest => c :: urlDecode ii rest
  | [] => []

/-- The loop of `url_decode`: the index, the variable that `sscanf` writes, and what has been decoded. -/
def decodeLoop (str : Str) : Nat → Nat → Int → Str → Except Fault Str
  | 0, _, _, _ => .error .outOfFuel
  | n + 1, i, ii, ret =>
      match (str)[i]? with
      | none => .ok ret
      | some c =>
          if c = '%' then do
            let digits ← substr str (i + 1) 2
            let ii := (scanHex (cstr digits)).getD ii
            decodeLoop str n (i + 3) ii (ret ++ [toChar ii])
          else decodeLoop str n (i + 1) ii (ret ++ [c])

/-- `url_decode` as it is written, by indices. `urlDecode` is what comes of it. -/
def urlDecodeLoop (ii : Int) (str : Str) : Except Fault Str := decodeLoop str (str.length + 1) 0 ii []

/-! ### Sending -/

/-- The lines of a mail. -/
def composeEmail (sender sentTo currTime title content : Str) : Str :=
  "From: <".toList ++ sender ++ ">\r\n".toList ++ ("To: <".toList ++ sentTo ++ ">\r\n".toList) ++
    ("Date: ".toList ++ currTime ++ "\r\n".toList) ++ ("Subject: ".toList ++ title ++ "\r\n".toList) ++
    (content ++ "\r\n".toList) ++ ".\r\n".toList

/-- The recipients, the title and the content of a form. -/
def emailForm (ii : Int) (req : Request) : Except Fault (Str × Str × Str) := do
  let params := split (cstr (urlDecode ii req.body)) '&'
  let sentTo ← atIdx params 0
  let sentTo ← atIdx (split sentTo '=') 1
  let title ← atIdx params 1
  let title ← atIdx (split title '=') 1
  let content ← atIdx params 2
  let content ← atIdx (split content '=') 1
  .ok (sentTo, replaceAll title ['+'] [' '], replaceAll content ['+'] [' '])

namespace Site

/-- `handle_send_email`, and what it sends to the mail server. -/
def handleSendEmail (ii : Int) (currTime : Str) (site : Site) (req : Request) : Except Fault (Str × Response) := do
  let (sentTo, title, content) ← emailForm ii req
  let message := "Send\r\n".toList ++
    composeEmail (site.userName ++ "@localhost.com".toList) sentTo currTime title content
  let response ← site.shows req "html/send-email-success.html"
  .ok (cstr message, response)

end Site

/-! ### Reading one mail -/

/-- `s.substr(pos)` -/
def substrFrom (s : Str) (pos : Nat) : Except Fault Str :=
  if s.length < pos then .error .outOfRange else .ok (s.drop pos)

/-- `line.substr(7, line.length() - 8)`: for a line of seven bytes the length wraps. -/
def addressIn (line : Str) : Except Fault Str := do
  let rest ← substrFrom line 7
  .ok (if line.length < 8 then rest else rest.take (line.length - 8))

structure Email where
  sender : Str
  date : Str
  title : Str
  content : Str
  deriving DecidableEq

/-- The loop that collects the content of a mail, up to a line with a dot in front of an empty one. What is left starts
with the empty line. -/
def readContent : List Str → Except Fault (Str × List Str)
  | [] => .error .outOfRange
  | line :: rest =>
      if line = ['.'] ∧ rest = [] then .error .outOfRange
      else if line = ['.'] ∧ rest.head? = some [] then .ok ([], rest)
      else do
        let (content, left) ← readContent rest
        .ok (line ++ "\r\n".toList ++ content, left)

/-- What `view_email`, `forward_email` and `reply_email` take from the reply to a get. -/
def readEmail (rep : List Str) : Except Fault Email := do
  let line ← atIdx rep 1
  let sender ← addressIn line
  let line ← atIdx rep 3
  let date ← substrFrom line 6
  let line ← atIdx rep 4
  let title ← substrFrom line 9
  let (content, _) ← readContent (rep.drop 5)
  .ok ⟨sender, date, title, content⟩

def getEmailMessage (username key : Str) : Str := "get ".toList ++ username ++ ",##".toList ++ key ++ "\r\n".toList

/-- The key in the path of a request, behind the first `n` bytes. -/
def emailKey (req : Request) (n : Nat) : Except Fault Str := do
  let path ← substrFrom req.path n
  atIdx (split path '=') 1

namespace Site

open Chunkserver

def fetchEmail (fuel : Nat) (commFd : Int) (site : Site) (key : Str) : Except Fault (Email × Site) := do
  let (rep, node) ← site.node.sendToBackend fuel commFd (getEmailMessage site.userName key)
  let email ← readEmail rep
  .ok (email, { site with node := node })

def viewEmail (fuel : Nat) (commFd : Int) (site : Site) (req : Request) : Except Fault (Response × Site) := do
  let key ← emailKey req 11
  let body ← site.files.getFileContent "html/view-email.html".toList
  let (email, site) ← site.fetchEmail fuel commFd key
  let body := replaceAll body "$from".toList email.sender
  let body := replaceAll body "$title".toList email.title
  let body := replaceAll body "$date".toList email.date
  let body := replaceAll body "$content".toList email.content
  let query := "key=".toList ++ key
  let body := replaceAll body "$replyQuery".toList query
  let body := replaceAll body "$forwardQuery".toList query
  let body := replaceAll body "$deleteQuery".toList query
  .ok (((Response.start req).typed "text/html").withBody body, site)

/-- The content of an answer, with the mail that it answers. -/
def quoted (email : Email) : Str :=
  "\n==========\n||From: ".toList ++ email.sender ++ "\n||Date: ".toList ++ email.date ++ "\n\n".toList ++ email.content

def forwardEmail (fuel : Nat) (commFd : Int) (site : Site) (req : Request) : Except Fault (Response × Site) := do
  let key ← emailKey req 9
  let (email, site) ← site.fetchEmail fuel commFd key
  let body ← site.files.getFileContent "html/forward-email.html".toList
  let body := replaceAll body "$title".toList ("FW: ".toList ++ email.title)
  let body := replaceAll body "$content".toList (quoted email)
  .ok (((Response.start req).typed "text/html").withBody body, site)

def replyEmail (fuel : Nat) (commFd : Int) (site : Site) (req : Request) : Except Fault (Response × Site) := do
  let key ← emailKey req 12
  let body ← site.files.getFileContent "html/reply-email.html".toList
  let (email, site) ← site.fetchEmail fuel commFd key
  let body := replaceAll body "$email".toList email.sender
  let body := replaceAll body "$title".toList ("RE: ".toList ++ email.title)
  let body := replaceAll body "$content".toList (quoted email)
  .ok (((Response.start req).typed "text/html").withBody body, site)

def deleteEmail (ii : Int) (fuel : Nat) (commFd : Int) (site : Site) (req : Request) : Except Fault (Response × Site) := do
  let path ← substrFrom req.path 13
  let param ← atIdx (split (cstr (urlDecode ii path)) '&') 0
  let key ← atIdx (split param '=') 1
  let (_, node) ← site.node.sendToBackend fuel commFd (deleMessage site.userName ("##".toList ++ key))
  let response ← site.shows req "html/delete-email.html"
  .ok (response, { site with node := node })

end Site

/-! ### The inbox -/

structure InboxRow where
  key : Str
  address : Str
  subject : Str
  date : Str
  deriving DecidableEq

/-- The rounds of the loop of `inbox` on the lines that are left. Each takes at least one line. -/
def inboxRows : Nat → List Str → Except Fault (List InboxRow)
  | 0, _ => .ok []
  | _ + 1, [] => .ok []
  | n + 1, line :: rest => do
      let first ← atIdx line 0
      let line := if first = ',' then line.drop 1 else line
      if line.take 2 = "##".toList then do
        let tokens := split (cstr line) ','
        let token ← atIdx tokens 1
        let address ← addressIn token
        let (_, left) ← readContent (rest.drop 3)
        let token ← atIdx tokens 0
        let key ← substrFrom token 2
        let line ← atIdx rest 2
        let subject ← substrFrom line 9
        let line ← atIdx rest 1
        let date ← substrFrom line 6
        -- the loop goes on behind the empty line
        let rows ← inboxRows n (left.drop 1)
        .ok (⟨key, address, subject, date⟩ :: rows)
      else inboxRows n rest

/-- A row of the table, with its number. -/
def InboxRow.text (row : InboxRow) (count : Nat) : Str :=
  "<tr>\n<th scope=\" row \"><a href=\"viewemail?key=".toList ++ row.key ++ "\">".toList ++ toStr count ++
    "</a></th>\n<td>".toList ++ row.address ++ "</td>\n<td>".toList ++ row.subject ++ "</td>\n<td>".toList ++ row.date ++
    "</td>\n</tr>\n".toList

def getEmailsMessage (username : Str) : Str := "getlist ".toList ++ username ++ ",email\r\n".toList

namespace Site

open Chunkserver

/-- The rows that `inbox` puts into its table. -/
def listEmails (fuel : Nat) (commFd : Int) (site : Site) : Except Fault (List InboxRow × Site) := do
  let (rep, node) ← site.node.sendToBackend fuel commFd (getEmailsMessage site.userName)
  let rows ← inboxRows rep.length rep
  .ok (rows, { site with node := node })

def inbox (fuel : Nat) (commFd : Int) (site : Site) (req : Request) : Except Fault (Response × Site) := do
  let body ← site.files.getFileContent "html/inbox.html".toList
  let (rows, site) ← site.listEmails fuel commFd
  let maillist := rows.zipIdx.flatMap fun row => row.1.text (row.2 + 1)
  .ok (((Response.start req).typed "text/html").withBody (replaceAll body "$maillist".toList maillist), site)

end Site

end PennCloud.Frontend
