import PennCloud.Frontend.Response

/-!
# Requests

The constructor of `Request` in `request.cc`, with `do_read` and `read_line` of `utils.cc`.
-/

namespace PennCloud.Frontend

/-- What comes over a connection before its end, as one `read` after another would return it to a large buffer. -/
structure Socket where
  chunks : List Str
  nonempty : ∀ chunk ∈ chunks, chunk ≠ []

/-- `do_read`: the bytes that are read, and what is left. A `read` takes from one chunk only. -/
def doRead : List Str → Nat → Str × List Str
  | [], _ => ([], [])
  | chunk :: chunks, len =>
      if len < chunk.length then (chunk.take len, chunk.drop len :: chunks)
      else
        let (more, chunks) := doRead chunks (len - chunk.length)
        (chunk ++ more, chunks)

/-- The loops of `read_line` behind what is read of the line. A byte behind a `\r` that is no `\n` is lost. -/
def readLineFrom : Nat → Str → List Str → Except Fault (Str × List Str)
  | 0, _, _ => .error .outOfFuel
  | n + 1, line, chunks =>
      match doRead chunks 1 with
      | ([c], chunks) =>
          if c = '\r' then
            match doRead chunks 1 with
            | ([c], chunks) => if c = '\n' then .ok (line, chunks) else readLineFrom n (line ++ ['\r']) chunks
            | (_, chunks) => .ok (line ++ ['\r'], chunks)
          else if c = '\n' then .ok (line, chunks)
          else readLineFrom n (line ++ [c]) chunks
      | (_, chunks) => .ok (line, chunks)

/-- `read_line`. Each round of its loops takes a byte. -/
def readLine (chunks : List Str) : Except Fault (Str × List Str) := readLineFrom (chunks.flatten.length + 1) [] chunks

/-- The loop over the pairs of a cookie line. -/
def readCookies (cookies : Map Str) (line : Str) : Except Fault (Map Str) :=
  (split (cstr (line.drop 8)) ';').foldlM (fun cookies token =>
    match split (cstr token) '=' with
    | [name, value] => do
        debug name
        debug value
        .ok (cookies.insert name value)
    | _ => .ok cookies) cookies

/-- What a line of the head does to the cookies and the length. -/
def readHeader (cookies : Map Str) (contentLength : Int) (line : Str) : Except Fault (Map Str × Int) := do
  debug line
  let cookies ← if line.take 8 = "Cookie: ".toList then readCookies cookies line else .ok cookies
  let contentLength := if line.take 16 = "Content-Length: ".toList then atoi (cstr (line.drop 16)) else contentLength
  .ok (cookies, contentLength)

/-- The loop over the lines of the head, from one that has been read on. -/
def readHeaders : Nat → Map Str → Int → Str → List Str → Except Fault (Map Str × Int × List Str)
  | 0, _, _, _, _ => .error .outOfFuel
  | n + 1, cookies, contentLength, line, chunks =>
      if line = [] then .ok (cookies, contentLength, chunks)
      else do
        let (cookies, contentLength) ← readHeader cookies contentLength line
        let (line, chunks) ← readLine chunks
        readHeaders n cookies contentLength line chunks

/-- The body of a request: what is read into a buffer, for the bytes that the buffer had before. -/
def readBody (malloced : Nat → Char) (contentLength : Int) (chunks : List Str) : Except Fault (Str × List Str) :=
  if intMax < contentLength + 1 then .error .intOverflow
  else
    let (buf, chunks) := doRead chunks contentLength.toNat
    .ok (buf ++ (List.range (contentLength.toNat - buf.length)).map (fun i => malloced (buf.length + i)), chunks)

/-- `Request::Request`: the request, unless it is not valid, and what is left on the connection. The length that no line sets is an
argument. -/
def Request.read (malloced : Nat → Char) (uninitialised : Int) (socket : Socket) : Except Fault (Option Request × List Str) := do
  let (line, chunks) ← readLine socket.chunks
  if line = [] then .ok (none, chunks)
  else
    match split (cstr line) ' ' with
    | [method, path, httpVersion] => do
        debug method
        debug path
        debug httpVersion
        let (cookies, contentLength, chunks) ← readHeaders (chunks.flatten.length + 2) ∅ uninitialised line chunks
        let (body, chunks) ←
          if method = "POST".toList ∧ 0 < contentLength then readBody malloced contentLength chunks else .ok ([], chunks)
        .ok (some ⟨method, path, httpVersion, contentLength, cookies, body⟩, chunks)
    | _ => .ok (none, chunks)

end PennCloud.Frontend
