import PennCloud.Frontend.Store

/-!
# Mail

`webmail_utils.cc`: `handle_send` takes the recipients of a mail from its `To:` lines and stores the
text for the first of them that is local. Mail to other servers leaves the system.
-/

namespace PennCloud

/-- `s.find_first_of(c, pos)`. -/
def findFirstOf (c : Char) (s : Str) (pos : Nat) : Option Nat :=
  ((s.drop pos).findIdx? (· == c)).map (pos + ·)

/-! ### Recipients -/

/-- The loop over the addresses of a `To:` line, with the places of the next `<` and `>`. The length of an address
that is not closed behind its `<` wraps, so that it takes the rest of the line; and the search for `>` starts over
when there was none. Each round finds a later `<`. -/
def addressesFrom : Nat → Str → Option Nat → Option Nat → List Str
  | 0, _, _, _ => []
  | _ + 1, _, none, _ => []
  | n + 1, data, some found1, found2 =>
      let rest := data.drop (found1 + 1)
      let rcvr := match found2 with
        | some found2 => if found1 < found2 then rest.take (found2 - found1 - 1) else rest
        | none => rest
      let next := match found2 with
        | some found2 => found2 + 1
        | none => 0
      rcvr :: addressesFrom n data (findFirstOf '<' data (found1 + 1)) (findFirstOf '>' data next)

def addresses (data : Str) : List Str :=
  if data.take 3 = "To:".toList then
    addressesFrom data.length data (findFirstOf '<' data 0) (findFirstOf '>' data 0)
  else []

def serverName (rcvr : Str) : Str :=
  match findFirstOf '@' rcvr 0 with
  | some found => rcvr.drop (found + 1)
  | none => rcvr

def userName (rcvr : Str) : Str :=
  match findFirstOf '@' rcvr 0 with
  | some found => rcvr.take found
  | none => rcvr

/-- The first recipient whose mail stays here. -/
def localRcvr (data : List Str) : Option Str :=
  ((data.map cstr).flatMap addresses).find? fun rcvr => (serverName rcvr).take 13 = "localhost.com".toList

/-! ### The text -/

/-- `"%02x"` -/
def hexByte (byte : Fin 256) : Str := [Nat.digitChar (byte / 16), Nat.digitChar (byte % 16)]

/-- `hash_to_MD5`, for a digest function of the bytes of a C string. -/
def hashToMD5 (digest : Str → Fin 16 → Fin 256) (data : Str) : Str :=
  (List.finRange 16).flatMap fun i => hexByte (digest (cstr data) i)

theorem notMem_hashToMD5 {c : Char} (hc : ∀ n : Fin 16, Nat.digitChar n ≠ c) (digest : Str → Fin 16 → Fin 256) (data : Str) :
    c ∉ hashToMD5 digest data := by
  intro hmem
  obtain ⟨i, _, hi⟩ := List.mem_flatMap.mp hmem
  rw [hexByte, List.mem_cons, List.mem_singleton] at hi
  rcases hi with rfl | rfl
  · exact hc ⟨_, by omega⟩ rfl
  · exact hc ⟨_, by omega⟩ rfl

def mailMessage (digest : Str → Fin 16 → Fin 256) (username text : Str) : Str :=
  "put ".toList ++ username ++ (",##".toList ++ hashToMD5 digest text ++ ',' :: (text ++ "\r\n".toList))

/-- `handle_send`, for the lines that `read_data` reads and the one that ends the mail. It returns after the first
local recipient. -/
def Chunkserver.handleSend (digest : Str → Fin 16 → Fin 256) (fuel : Nat) (s : Chunkserver) (commFd : Int)
    (data : List Str) (last : Str) : Except Fault Chunkserver :=
  let text := (data.map cstr).flatten ++ cstr last
  match localRcvr data with
  | some rcvr => do
      let (_, s) ← s.sendToBackend fuel commFd (mailMessage digest (userName rcvr) text)
      .ok s
  | none => .ok s

end PennCloud
