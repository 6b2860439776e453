import PennCloud.Str

/-!
# Reading into a buffer

`read_command` and `read_data` of `webmail_utils.cc`, byte by byte. Both go on until a line end stands in front of the next
place of the buffer, whoever wrote it. A closed connection stores nothing, so that the bytes from before are tested.
-/

namespace PennCloud.Webmail

/-- `BUFFER_SIZE` -/
def bufferSize : Nat := 1024

/-- What a client sends. After a close every `read` returns 0. -/
structure Stream where
  byte : Nat → Option Char
  closed : ∀ i, byte i = none → byte (i + 1) = none

/-- An array of `BUFFER_SIZE` bytes. -/
@[ext]
structure Buffer where
  bytes : Str
  size : bytes.length = bufferSize

namespace Buffer

/-- A buffer after `bzero`. -/
def zero : Buffer := ⟨List.replicate bufferSize '\x00', List.length_replicate⟩

def set (buf : Buffer) (i : Nat) (c : Char) : Buffer := ⟨buf.bytes.set i c, List.length_set.trans buf.size⟩

/-- `buf[i] = c` -/
def store (buf : Buffer) (i : Nat) (c : Char) : Except Fault Buffer :=
  if i < bufferSize then .ok (buf.set i c) else .error .overrun

/-- A `read` of one byte to a place of the buffer. -/
def receive (buf : Buffer) (i : Nat) : Option Char → Buffer
  | some c => buf.set i c
  | none => buf

end Buffer

/-- A line end in front of a place. The bytes in front of a buffer are taken not to be part of one. -/
def EndsAt (bytes : Str) (i : Nat) : Prop := 2 ≤ i ∧ bytes[i - 2]? = some '\r' ∧ bytes[i - 1]? = some '\n'

instance (bytes : Str) (i : Nat) : Decidable (EndsAt bytes i) := inferInstanceAs (Decidable (_ ∧ _))

/-- The loop of both functions from `rcvd` on, for as many places as there are behind it. In front of none, the next byte is
stored and tested behind the buffer. -/
def readFrom (stream : Stream) (pos : Nat) : Nat → Buffer → Nat → Except Fault (Buffer × Nat)
  | 0, buf, rcvd => if EndsAt buf.bytes rcvd then .ok (buf, rcvd) else .error .overrun
  | room + 1, buf, rcvd =>
      if EndsAt buf.bytes rcvd then .ok (buf, rcvd)
      else readFrom stream pos room (buf.receive rcvd (stream.byte (pos + rcvd))) (rcvd + 1)

/-- What is read, from a place of the stream on, and how much. -/
def readCommand (stream : Stream) (pos : Nat) (buf : Buffer) : Except Fault (Buffer × Nat) := readFrom stream pos bufferSize buf 0

/-- The same, and whether the mail ends. -/
def readDataInto (stream : Stream) (pos : Nat) (buf : Buffer) (lastlen : Nat) : Except Fault (Buffer × Nat × Bool) := do
  let (buf, rcvd) ← readFrom stream pos bufferSize buf 0
  .ok (buf, rcvd, decide (0 < lastlen ∧ buf.bytes.take 3 = ".\r\n".toList))

/-- The loop of `handle_data`: what it writes to `lines`, and where the next command starts. -/
def lineData (stream : Stream) : Nat → Nat → Buffer → Nat → Except Fault (Str × Nat)
  | 0, _, _, _ => .error .outOfFuel
  | n + 1, pos, dataBuf, currlen => do
      let (dataBuf, currlen, endflag) ← readDataInto stream pos dataBuf currlen
      if endflag then .ok (cstr dataBuf.bytes, pos + currlen)
      else do
        let dataBuf ← dataBuf.store currlen '\x00'
        let (lines, pos) ← lineData stream n (pos + currlen) dataBuf currlen
        .ok (cstr dataBuf.bytes ++ lines, pos)

end PennCloud.Webmail
