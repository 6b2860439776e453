import PennCloud.Webmail.Server

/-!
# Reading from a connection

`read_command` and `read_data` of `webmail_utils.cc`. The bytes in front of a buffer are taken not to be part of a line
end, and a connection that closes inside of a line gives no line.
-/

namespace PennCloud.Webmail

/-- The bytes up to the next `\r\n`, with it, and what is left. -/
def readLine : Str → Option (Str × Str)
  | '\r' :: '\n' :: rest => some ("\r\n".toList, rest)
  | c :: rest => (readLine rest).map fun (line, rest) => (c :: line, rest)
  | [] => none

/-- The rounds of `read_data` behind the first: the lines in front of the one that ends the mail, it, and the rest. -/
def readData : Nat → Str → Option (List Str × Str × Str)
  | 0, _ => none
  | n + 1, stream => do
      let (line, rest) ← readLine stream
      if line.take 3 = ".\r\n".toList then some ([], line, rest)
      else do
        let (data, last, rest) ← readData n rest
        some (line :: data, last, rest)

/-- What a mail is addressed to, over all its lines. -/
def rcvrs (data : List Str) : List Str := (data.map cstr).flatMap addresses

/-- A command and the mail behind it. The first line never ends a mail, and `MsgQueue` has twenty places. -/
def readMail (stream : Str) : Option (Command × Str) := do
  let (buf, stream) ← readLine stream
  let (line, stream) ← readLine stream
  let (data, last, stream) ← readData stream.length stream
  if (rcvrs (line :: data)).length ≤ 20 then some (⟨buf, line :: data, last⟩, stream) else none

/-- The text that `handle_send` stores. -/
def Command.text (command : Command) : Str := (command.data.map cstr).flatten ++ cstr command.last

end PennCloud.Webmail
