import PennCloud.Lib.Run
import PennCloud.Webmail.Server

/-!
# The calls of a session

`worker` of `webmail_server.cc` from one call of `read_command` or `read_data` to the next, with the buffer that each is given.
-/

namespace PennCloud.Webmail

/-- `handle_data` or `handle_send` between two lines of a mail. -/
structure Mail where
  command : Str
  dataBuf : Buffer
  currlen : Nat
  data : List Str

/-- A connection in front of the next call. -/
structure Worker where
  session : Session
  buf : Buffer
  mail : Option Mail
  pos : Nat

namespace Worker

def start : Worker := ⟨Webmail.start, .zero, none, 0⟩

variable (stream : Stream) (w : Worker)

/-- The buffer that is filled next. -/
def filled : Buffer :=
  match w.mail with
  | none => w.buf
  | some mail => mail.dataBuf

/-- What follows a call of `read_command`. -/
def handleCommand (digest : Str → Fin 16 → Fin 256) (behind : String → Str) (exist : Str → Bool) (left : Str) (buf : Buffer)
    (rlen : Nat) : Except Fault Worker := do
  let buf ← buf.store rlen '\x00'
  let line := buf.bytes.take rlen
  let handler := w.session.handler behind line
  if handler = .data ∨ handler = .send then
    .ok { w with buf := buf, mail := some ⟨line, .zero, 0, []⟩, pos := w.pos + rlen }
  else do
    let (session, _) ← w.session.step digest behind exist left ⟨line, [], []⟩
    .ok { w with session := session, buf := if handler = .rset then .zero else buf, pos := w.pos + rlen }

/-- What follows a call of `read_data`. -/
def handleLine (digest : Str → Fin 16 → Fin 256) (behind : String → Str) (exist : Str → Bool) (left : Str) (mail : Mail)
    (dataBuf : Buffer) (currlen : Nat) (endflag : Bool) : Except Fault Worker :=
  let line := dataBuf.bytes.take currlen
  if endflag then do
    let (session, _) ← w.session.step digest behind exist left ⟨mail.command, mail.data, line⟩
    .ok { w with session := session, mail := none, pos := w.pos + currlen }
  else do
    let dataBuf ← dataBuf.store currlen '\x00'
    .ok { w with mail := some ⟨mail.command, dataBuf, currlen, mail.data ++ [line]⟩, pos := w.pos + currlen }

/-- A call and what follows it, in an environment. -/
def step (digest : Str → Fin 16 → Fin 256) (behind : String → Str) (exist : Str → Bool) (left : Str) : Except Fault Worker :=
  match w.mail with
  | none => do
      let (buf, rlen) ← readCommand stream w.pos w.buf
      w.handleCommand digest behind exist left buf rlen
  | some mail => do
      let (dataBuf, currlen, endflag) ← readDataInto stream w.pos mail.dataBuf mail.currlen
      w.handleLine digest behind exist left mail dataBuf currlen endflag

/-- The next call returns, with what it has stored in its buffer. -/
def Returns : Prop :=
  match w.mail with
  | none => ∃ result, readCommand stream w.pos w.buf = .ok result
  | some mail => ∃ result, readDataInto stream w.pos mail.dataBuf mail.currlen = .ok result

/-- The steps of a connection that has not been closed by the server, each with the state in front of its call. -/
def Step (w call w' : Worker) : Prop :=
  call = w ∧ w.session.connected ∧ ∃ digest behind exist left, w.step stream digest behind exist left = .ok w'

end Worker

end PennCloud.Webmail
