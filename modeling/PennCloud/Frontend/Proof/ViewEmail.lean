import PennCloud.Frontend.Mail
import PennCloud.Frontend.Proof.Addressing
import PennCloud.Frontend.Proof.Endings
import PennCloud.Kv.Proof.Exchange
import PennCloud.Kv.Proof.Pressure

/-!
# Showing a mail

The page of a mail finds its lines in the reply to a get by their numbers. They are where it looks, since the reply has
one line in front of the value; and the value ends with an empty line behind the dot.
-/

namespace PennCloud

variable {line user key value content sender sentTo date title : Str} {lines rest : List Str}

/-! ### Kept values -/

namespace LRUCache

variable {s : LRUCache} {filename : Str}

/-- A file of a user has this value: in its node, or on disk, where it can be reloaded from. -/
inductive Keeps (s : LRUCache) (user filename value : Str) : Prop where
  | resident (r : Ref) (wired : s.Wired) (node : s.tablets[user]? = some r)
      (found : (s.heap r).value[filename]? = some value)
  | evicted (q : List Str) (files : Map Str) (chunk fill : Int) (waits : s.Waits q)
      (plains : ∀ w ∈ q, Plain (s.filesOf w)) (chunkAt : s.ChunkAt .virtualMemory chunk fill)
      (virmem : s.virmemMeta[user]? ≠ none)
      (row : readRow s.disk .virtualMemory (s.virmemMeta.getD user []) = .ok (formatNode files).1) (plain : Plain files)
      (total_le : (total files : Int) ≤ s.capacity)
      (space : fill + s.rowsOf (Shedding.shed s.bytes (s.capacity - total files) q) ≤ chunkSize)
      (found : files[filename]? = some value)

theorem Keeps.getHelper (h : s.Keeps user filename value) (commFd : Int) :
    ∃ depth t, t.sent = s.sent ∧ ∀ fuel, depth ≤ fuel → s.getHelper fuel user filename commFd = .ok (some value, t) := by
  cases h with
  | resident r wired node found =>
      obtain ⟨L, _, hget⟩ := wired.getHelper node
      refine ⟨0, s.relink L, rfl, fun fuel _ => ?_⟩
      rw [hget, filesOf_of_resident node, found]
  | evicted q files chunk fill waits plains chunkAt virmem row plain total_le space found =>
      have hne : files ≠ ∅ := by
        rintro rfl
        exact Option.some_ne_none value (found.symm.trans Std.ExtTreeMap.getElem?_empty)
      obtain ⟨t, hget, hsent, _⟩ := getHelper_reloads waits plains chunkAt virmem row plain hne total_le space filename commFd
      rw [found, if_neg (Option.some_ne_none value), List.append_nil] at hsent
      rw [found] at hget
      exact ⟨q.length + 1, t, hsent, fun fuel hfuel => hget fuel hfuel⟩

end LRUCache

/-! ### The reply -/

namespace Chunkserver

open Frontend

variable {s : Chunkserver} {filename : Str}

theorem parseCommand_getFileMessage (user filename : Str) :
    parseCommand (getFileMessage user filename) = .ok "get".toList := by
  rw [getFileMessage_eq]
  exact parseCommand_append "get".toList (by decide) (by decide) _

theorem endingOf_getFileMessage (user filename : Str) : endingOf (getFileMessage user filename) = done := by
  rw [endingOf, if_neg]
  intro heq
  have hget : ((getFileMessage user filename).take 7).take 4 = "get ".toList := by
    rw [getFileMessage_eq, List.take_take]
    rfl
  rw [heq] at hget
  exact absurd hget (by decide)

/-- A get of a value that is kept shows one line and the lines of the value. -/
theorem sendToBackend_get (hkeeps : s.lru.Keeps user filename value) (huser : ',' ∉ user) (hnul : '\x00' ∉ user)
    (hfilename : '\x00' ∉ filename) (hvalue : value = joinLines lines)
    (hlines : ∀ line ∈ lines, '\r' ∉ line ∧ line ≠ done) (commFd : Int) :
    ∃ depth t, ∀ fuel, depth ≤ fuel → s.sendToBackend fuel commFd (getFileMessage user filename) =
      .ok ("+OK value as follows: ".toList :: lines, t) := by
  obtain ⟨depth, lru, hsent, hget⟩ := hkeeps.getHelper commFd
  have hcstr := cstr_getFileMessage hnul hfilename
  have hrequest : getRequest (getFileMessage user filename) = .ok (some fun commFd _ => Op.get user filename commFd) := by
    rw [getFileMessage_eq, getRequest_append huser]
  let t : Chunkserver :=
    { s with lru := (lru.servermsg "+OK value as follows: \r\n" commFd).send commFd value }
  have hreplies : repliesOn commFd s (t.sendDone commFd) =
      joinLines ("+OK value as follows: ".toList :: lines) ++ ([] ++ doneLine) := by
    have htexts : t.lru.sent = s.lru.sent ++ ["+OK value as follows: \r\n".toList, value].map (Prod.mk commFd) := by
      rw [← hsent]
      exact List.append_assoc ..
    have hhead : "+OK value as follows: \r\n".toList = joinLines ["+OK value as follows: ".toList] := by decide
    rw [reply_texts htexts, hvalue, List.flatten_cons, List.flatten_cons, List.flatten_nil, List.append_nil, hhead,
      ← joinLines_append]
    rfl
  refine ⟨depth + lines.length + 1, t.sendDone commFd, fun fuel hfuel => ?_⟩
  have hworker : s.worker fuel commFd (cstr (getFileMessage user filename)) = .ok (t.sendDone commFd) := by
    rw [worker_get (by rw [hcstr, hcstr]; exact parseCommand_getFileMessage user filename), hcstr, hcstr, hrequest]
    change ((s.lru.get fuel user filename commFd >>= _) >>= _) = _
    rw [LRUCache.get, hget fuel (by omega)]
    rfl
  rw [sendToBackend, hworker, Run.ok_bind, hreplies, readRep_joinLines, Run.ok_bind]
  · rw [endingOf_getFileMessage, List.forall_mem_cons]
    exact ⟨by decide, hlines⟩
  · decide
  · exact List.not_mem_nil
  · exact (endingOf_getFileMessage user filename).symm
  · omega

end Chunkserver

/-! ### The lines of a mail -/

namespace Frontend

/-- The lines of a mail, without the one that ends it. -/
def emailLines (sender sentTo date title content : Str) : List Str :=
  ["From: <".toList ++ sender ++ ['>'], "To: <".toList ++ sentTo ++ ['>'], "Date: ".toList ++ date,
    "Subject: ".toList ++ title] ++ linesOf content

theorem composeEmail_eq (sender sentTo date title content : Str) :
    composeEmail sender sentTo date title content = joinLines (emailLines sender sentTo date title content ++ [['.']]) := by
  have hlines : ∀ a b c d : Str, a ++ ">\r\n".toList ++ (b ++ ">\r\n".toList) ++ (c ++ "\r\n".toList) ++
      (d ++ "\r\n".toList) ++ (content ++ "\r\n".toList) ++ ".\r\n".toList =
        joinLines ([a ++ ['>'], b ++ ['>'], c, d] ++ linesOf content ++ [['.']]) := by
    intro a b c d
    rw [joinLines_append, joinLines_append, joinLines_linesOf]
    simp [joinLines]
  exact hlines ..

theorem addressIn_from (sender : Str) : addressIn ("From: <".toList ++ sender ++ ['>']) = .ok sender := by
  have hdrop : ("From: <".toList ++ sender ++ ['>']).drop 7 = sender ++ ['>'] := rfl
  have hlength : ("From: <".toList ++ sender ++ ['>']).length = sender.length + 8 := by
    rw [List.length_append, List.length_append]
    exact Nat.add_comm (7 + sender.length) 1 |>.trans (by omega)
  rw [addressIn, substrFrom, hlength, if_neg (by omega), Run.ok_bind, hdrop, if_neg (by omega), Nat.add_sub_cancel,
    List.take_left]

theorem substrFrom_append (front rest : Str) : substrFrom (front ++ rest) front.length = .ok rest := by
  rw [substrFrom, if_neg (by simp), List.drop_left]

/-- The dot in front of the empty line is found where the content ends. -/
theorem readContent_lines (hdot : ['.'] ∉ lines) (rest : List Str) :
    readContent (lines ++ ['.'] :: [] :: rest) = .ok (joinLines lines, [] :: rest) := by
  induction lines with
  | nil => rfl
  | cons line lines ih =>
      have hne : line ≠ ['.'] := fun heq => hdot (heq ▸ List.mem_cons_self)
      rw [List.cons_append, readContent, if_neg fun h => hne h.1, if_neg fun h => hne h.1,
        ih fun hmem => hdot (List.mem_cons_of_mem _ hmem), Run.ok_bind]
      rfl

theorem readEmail_lines (hdot : ['.'] ∉ linesOf content) (header : Str) (rest : List Str) :
    readEmail (header :: (emailLines sender sentTo date title content ++ ['.'] :: [] :: rest)) =
      .ok ⟨sender, date, title, content ++ "\r\n".toList⟩ := by
  have hdate : substrFrom ("Date: ".toList ++ date) 6 = .ok date := substrFrom_append "Date: ".toList date
  have htitle : substrFrom ("Subject: ".toList ++ title) 9 = .ok title := substrFrom_append "Subject: ".toList title
  have hcontent : readContent (linesOf content ++ ['.'] :: [] :: rest) = _ := readContent_lines hdot rest
  rw [joinLines_linesOf] at hcontent
  simp only [readEmail, emailLines, List.cons_append, List.nil_append, atIdx, List.getElem?_cons_succ,
    List.getElem?_cons_zero, Run.ok_bind, addressIn_from, hdate, htitle, List.drop_succ_cons, List.drop_zero, hcontent]

theorem addressLine_ne (front text : Str) (hfront : '!' ∉ front.take 1) (hne : front ≠ []) : front ++ text ≠ done := by
  intro heq
  cases front with
  | nil => exact hne rfl
  | cons c front =>
      have hc : c = '!' := (List.cons.inj heq).1
      exact hfront (hc ▸ List.mem_cons_self)

theorem emailLines_readable (hsender : '\r' ∉ sender) (hsentTo : '\r' ∉ sentTo) (hdate : '\r' ∉ date) (htitle : '\r' ∉ title)
    (hcontent : Paired content) (hdone : done ∉ linesOf content) :
    ∀ line ∈ emailLines sender sentTo date title content ++ [['.'], []], '\r' ∉ line ∧ line ≠ done := by
  have haddress {front text : Str} (hfront : '\r' ∉ front) (htext : '\r' ∉ text) : '\r' ∉ front ++ text ++ ['>'] :=
    fun hmem => (List.mem_append.mp hmem).elim (fun hmem => (List.mem_append.mp hmem).elim hfront htext) (by decide)
  have hheader {front text : Str} (hfront : '\r' ∉ front) (htext : '\r' ∉ text) : '\r' ∉ front ++ text :=
    fun hmem => (List.mem_append.mp hmem).elim hfront htext
  rw [List.forall_mem_append]
  constructor
  · rw [emailLines, List.forall_mem_append]
    refine ⟨?_, fun line hline => ⟨hcontent.notMem_linesOf hline, fun heq => hdone (heq ▸ hline)⟩⟩
    rw [List.forall_mem_cons, List.forall_mem_cons, List.forall_mem_cons, List.forall_mem_singleton]
    refine ⟨⟨haddress (by decide) hsender, ?_⟩, ⟨haddress (by decide) hsentTo, ?_⟩, ⟨hheader (by decide) hdate, ?_⟩,
      ⟨hheader (by decide) htitle, ?_⟩⟩
    · rw [List.append_assoc]
      exact addressLine_ne _ _ (by decide) (by decide)
    · rw [List.append_assoc]
      exact addressLine_ne _ _ (by decide) (by decide)
    · exact addressLine_ne _ _ (by decide) (by decide)
    · exact addressLine_ne _ _ (by decide) (by decide)
  · decide

/-! ### Fetching a mail -/

namespace Site

open Chunkserver

/-- **A mail is shown as it was stored**: whatever its lines look like, the pages find the sender, the date, the title
and the content. -/
theorem fetchEmail_composed {site : Site}
    (hkeeps : site.node.lru.Keeps site.userName ("##".toList ++ key)
      (composeEmail sender sentTo date title content ++ "\r\n".toList))
    (huser : ',' ∉ site.userName) (hnul : '\x00' ∉ site.userName) (hkey : '\x00' ∉ key) (hsender : '\r' ∉ sender)
    (hsentTo : '\r' ∉ sentTo) (hdate : '\r' ∉ date) (htitle : '\r' ∉ title) (hcontent : Paired content)
    (hdot : ['.'] ∉ linesOf content) (hdone : done ∉ linesOf content) (commFd : Int) :
    ∃ depth site', ∀ fuel, depth ≤ fuel →
      site.fetchEmail fuel commFd key = .ok (⟨sender, date, title, content ++ "\r\n".toList⟩, site') := by
  have hmessage : getEmailMessage site.userName key = getFileMessage site.userName ("##".toList ++ key) := by
    have hjoin : ∀ front name key ending : Str,
        front ++ name ++ ",##".toList ++ key ++ ending = front ++ name ++ ',' :: ("##".toList ++ key) ++ ending := by simp
    exact hjoin ..
  have hname : '\x00' ∉ "##".toList ++ key :=
    fun hmem => (List.mem_append.mp hmem).elim (by decide) hkey
  have hvalue : composeEmail sender sentTo date title content ++ "\r\n".toList =
      joinLines (emailLines sender sentTo date title content ++ [['.'], []]) := by
    have hempty : joinLines [[]] = "\r\n".toList := rfl
    have hsplit : ∀ lines : List Str, lines ++ [['.'], []] = lines ++ [['.']] ++ [[]] := fun lines => by simp
    rw [composeEmail_eq, ← hempty, ← joinLines_append, hsplit]
  obtain ⟨depth, node, hsend⟩ := sendToBackend_get hkeeps huser hnul hname hvalue
    (emailLines_readable hsender hsentTo hdate htitle hcontent hdone) commFd
  refine ⟨depth, { site with node := node }, fun fuel hfuel => ?_⟩
  rw [fetchEmail, hmessage, hsend fuel hfuel, Run.ok_bind]
  dsimp only
  rw [readEmail_lines hdot, Run.ok_bind]

theorem fetchEmail_composed_stored : ∃ site : Site, site.userName = "u".toList ∧ ∃ depth site', ∀ fuel, depth ≤ fuel →
    site.fetchEmail fuel 3 "k".toList = .ok (⟨"a".toList, "d".toList, "t".toList, "hi\r\n..\r\n".toList⟩, site') := by
  have hends : LRUCache.endsIn (fun _ op => op.KeepsFiles) 1 (LRUCache.fresh 100 true)
      [.put "u".toList "##k".toList
        (composeEmail "a".toList "u".toList "d".toList "t".toList "hi\r\n..".toList ++ "\r\n".toList) 3 0]
      (fun s => decide (s.tablets["u".toList]? = some (.node 0) ∧ (s.heap (.node 0)).value["##k".toList]? =
        some (composeEmail "a".toList "u".toList "d".toList "t".toList "hi\r\n..".toList ++ "\r\n".toList))) = true := by
    decide +kernel
  obtain ⟨s, hrun, hstate⟩ := LRUCache.runs_of_endsIn hends
  obtain ⟨hresident, hfound⟩ := of_decide_eq_true hstate
  have hpaired : Paired "hi\r\n..".toList := (paired_iff _).mpr (by decide +kernel)
  let site : Site := ⟨⟨∅, ∅⟩, ∅, "u".toList, none, { Chunkserver.fresh 100 true 9 with lru := s }⟩
  have hcomma : ',' ∉ site.userName := (by decide : ',' ∉ "u".toList)
  have hnul : '\x00' ∉ site.userName := (by decide : '\x00' ∉ "u".toList)
  exact ⟨site, rfl, fetchEmail_composed (.resident _ (LRUCache.wired_of_runs hrun) hresident hfound) hcomma hnul (by decide)
    (by decide) (by decide) (by decide) (by decide) hpaired (by decide +kernel) (by decide +kernel) 3⟩

end Site

end Frontend

end PennCloud
