import PennCloud.Kv.Kvstore

/-!
# Asking the master

`contact_master`, `confirm_identity` and `parse_ip_and_port` of `kvstore.cc`: what a node that starts makes of the
reply to `!id`, and what a new node asks another one for. A datagram that is longer than the buffer loses its end.
-/

namespace PennCloud

/-- `parse_ip_and_port`, for the ip of before. -/
def parseIpAndPort (ip s : Str) : Except Fault (Str × Int) := do
  let port ← stoi (Fields.remainder ':' s)
  .ok ((Fields.pieces ':' s).getLastD ip, port % 2 ^ 32)

/-- What a node is, and where it has to go next. -/
inductive Identity where
  | primary
  | newcomer (migrationIp : Str) (migrationPort : Int) (migrationUserList : Str)
  | secondary (primaryIp : Str) (primaryPort : Int)
  deriving DecidableEq

def confirmIdentity (feedback : Str) : Except Fault Identity := do
  let s := cstr feedback
  if s = "P".toList then .ok .primary
  else if (s.drop 1).head? = some ' ' then
    match Fields.cut ',' s with
    | some (front, rest) => do
        -- as many bytes as stand in front of the comma, but from the third one on
        let ipPort ← substr s 2 front.length
        let (ip, port) ← parseIpAndPort [] ipPort
        .ok (.newcomer ip port rest)
    | none => do
        let (ip, port) ← parseIpAndPort [] []
        .ok (.newcomer ip port s)
  else
    let ipPort ← substr s 2 (s.length - 1)
    let (ip, port) ← parseIpAndPort [] ipPort
    .ok (.secondary ip port)

/-- `char feedback[255]`, and the place of the NUL. -/
def feedbackSize : Nat := 254

def contactMaster (reply : Str) : Except Fault Identity := confirmIdentity (reply.take feedbackSize)

/-- What `migrate_worker` sends first. -/
def requestData (migrationUserList : Str) : Str := "REQUEST ".toList ++ migrationUserList

/-- The vector that `data_migration` fills. -/
def requestedUsers (line : Str) : Except Fault (List Str) := do
  let text ← substr line 8 (line.length - 8)
  .ok (Fields.pieces ',' text)

end PennCloud
