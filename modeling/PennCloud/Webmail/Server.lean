import PennCloud.Frontend.Utils
import PennCloud.Webmail.Buffer
import PennCloud.Webmail.Webmail

/-!
# The mail server

`worker` of `webmail_server.cc` and the handlers of `webmail_utils.cc`: one connection, command by command. The arrays
that hold the first bytes of a command have no room for a NUL, and what stands behind each of them in memory is an
argument. `handle_rcpt` ends without a `return`, and the string it leaves is an argument. Lines are shorter than their
buffers.
-/

namespace PennCloud.Webmail

/-- The variables of `worker`. Nothing is ever stored in `reverse_path`. -/
structure Session where
  connected : Bool
  heloFlag : Int
  mailFlag : Int
  rcptFlag : Int
  rcvrList : Std.ExtTreeSet Str

def start : Session := ⟨true, 0, 0, 0, ∅⟩

/-- The branches of the loop. -/
inductive Handler where
  | helo | mail | rcpt | data | send | quit | rset | noop | unknown
  deriving DecidableEq, Repr

/-- A line for `worker`, and the lines behind it that `handle_data` and `handle_send` read: those of the mail, and the
one that ends it. -/
structure Command where
  buf : Str
  data : List Str
  last : Str

/-- What a command makes the server write on the connection and send to the storage. -/
structure Outcome where
  replies : List Str
  messages : List Str

def okResp : Str := "250 OK\r\n".toList

/-- `strncpy(cmp, buf, n)` -/
def strncpy (buf : Str) (n : Nat) : Str := (cstr buf ++ List.replicate n '\x00').take n

/-- `strcasecmp` of a word with the array for it, which `strncpy` fills up to its end. The comparison goes on in the string that
stands behind the array. -/
def Is (behind : String → Str) (word : String) (buf : Str) : Bool :=
  (cstr (strncpy buf word.toList.length ++ behind word)).map Char.toLower = word.toList.map Char.toLower

/-- `s.find_last_of(c)` -/
def findLastOf (c : Char) (s : Str) : Option Nat := (s.reverse.findIdx? (· == c)).map (s.length - 1 - ·)

def handleHelo (rlen : Nat) (heloFlag : Int) : Int × Str :=
  if 7 < rlen then (1, "250 localhost\r\n".toList)
  else (heloFlag, "501 HELO command must be followed by a domain name.\r\n".toList)

/-- The sender is compared and forgotten. Without an `@` the comparison throws. -/
def handleMail (buf : Str) (mailFlag : Int) : Except Fault (Int × Str) := do
  let domainBuffer ← substr (cstr buf) 10 npos
  match findLastOf '@' domainBuffer with
  | none => .error .outOfRange
  | some found =>
      if (domainBuffer.drop found).take 14 = "@localhost.com".toList then do
        let _ ← substr domainBuffer 10 found
        .ok (1, okResp)
      else .ok (mailFlag, "ERR: incorrect host name".toList)

/-- Mail for another server is accepted, and so is mail for a user with a mailbox. -/
def handleRcpt (exist : Str → Bool) (buf : Str) (rcptFlag : Int) : Except Fault (Int × Str) := do
  let domainBuffer ← substr (cstr buf) 8 npos
  match findLastOf '@' domainBuffer with
  | none => .error .outOfRange
  | some found =>
      if (domainBuffer.drop found).take 14 = "@localhost.com".toList then do
        let hostName ← substr domainBuffer 1 (toSize (found - 1))
        if exist (hostName ++ ".mbox".toList) then .ok (1, okResp)
        else .ok (rcptFlag, "550 No such user here \r\n".toList)
      else .ok (1, okResp)

/-- What `handle_data` writes to `lines`, from the bytes of `data_buf` on. A line is read over what is left of the earlier ones,
and the line that ends the mail is not terminated. -/
def lineDataFrom : Str → List Str → Str → Str
  | dataBuf, [], last => cstr (last ++ dataBuf.drop last.length)
  | dataBuf, line :: data, last =>
      let dataBuf := (line ++ dataBuf.drop line.length).set line.length '\x00'
      cstr dataBuf ++ lineDataFrom dataBuf data last

def handleData (digest : Str → Fin 16 → Fin 256) (rcvrList : Std.ExtTreeSet Str) (data : List Str) (last : Str) : Outcome :=
  let lineData := lineDataFrom Buffer.zero.bytes data last
  ⟨["354 send the mail data, end with .\r\n".toList, okResp],
    rcvrList.toList.map fun rcvr => mailMessage digest rcvr lineData⟩

namespace Session

variable (s : Session)

/-- The tests of `worker` on a line, in their order. -/
def handler (behind : String → Str) (buf : Str) : Handler :=
  if Is behind "HELO " buf ∧ s.heloFlag = 0 then .helo
  else if Is behind "MAIL FROM" buf ∧ s.heloFlag = 1 ∧ s.mailFlag = 0 then .mail
  else if Is behind "RCPT TO" buf ∧ s.heloFlag = 1 ∧ s.mailFlag = 1 then .rcpt
  else if Is behind "DATA" buf ∧ s.rcptFlag = 1 then .data
  else if Is behind "SEND" buf then .send
  else if Is behind "QUIT\r\n" buf then .quit
  else if Is behind "RSET\r\n" buf then .rset
  else if Is behind "NOOP" buf then .noop
  else .unknown

/-- One round of the loop, for what stands behind the arrays, the files that exist and the string that `handle_rcpt` leaves. -/
def step (digest : Str → Fin 16 → Fin 256) (behind : String → Str) (exist : Str → Bool) (left : Str) (command : Command) :
    Except Fault (Session × Outcome) :=
  match s.handler behind command.buf with
  | .helo =>
      let (heloFlag, resp) := handleHelo command.buf.length s.heloFlag
      .ok ({ s with heloFlag := heloFlag }, ⟨[resp], []⟩)
  | .mail => do
      let (mailFlag, resp) ← handleMail command.buf s.mailFlag
      .ok ({ s with mailFlag := mailFlag }, ⟨[resp], []⟩)
  | .rcpt => do
      let (rcptFlag, resp) ← handleRcpt exist command.buf s.rcptFlag
      .ok ({ s with rcptFlag := rcptFlag, rcvrList := s.rcvrList.insert left }, ⟨[resp], []⟩)
  -- the flag that `handle_data` returns is dropped
  | .data => .ok (s, handleData digest s.rcvrList command.data command.last)
  | .send =>
      let text := (command.data.map cstr).flatten ++ cstr command.last
      match localRcvr command.data with
      | some rcvr => .ok (s, ⟨[okResp], [mailMessage digest (userName rcvr) text]⟩)
      | none => .ok (s, ⟨[], []⟩)
  | .quit => .ok ({ s with connected := false }, ⟨["221 Service closing transmission channel\r\n".toList], []⟩)
  -- both flags that are set here are new variables
  | .rset => .ok ({ s with rcvrList := ∅ }, ⟨[okResp], []⟩)
  | .noop => .ok (s, ⟨[okResp], []⟩)
  | .unknown => .ok (s, ⟨["ERR: not a command!\r\n".toList], []⟩)

end Session

end PennCloud.Webmail
