import PennCloud.Frontend.Proof.Registration
import PennCloud.Kv.Proof.Listings
import PennCloud.Webmail.Proof.Arrival

/-!
# The inbox

The page lists the mails of a user from one reply, in which the names and the values of the files run into each other
at commas. It finds each mail again as long as every value is one mail: two equal mails have one file, and the empty
line between them is where the page looks for a first byte.
-/

namespace PennCloud

open Std LRUCache Chunkserver Frontend Webmail

variable {digest : Str → Fin 16 → Fin 256}

/-! ### Mails -/

/-- What `handle_send_email` composes a mail from. -/
structure Mail where
  sender : Str
  sentTo : Str
  time : Str
  title : Str
  content : Str

namespace Mail

variable {m : Mail}

def composed (m : Mail) : Str := composeEmail m.sender m.sentTo m.time m.title m.content

/-- The lines behind the first that are read of a mail. -/
def lines (m : Mail) : List Str := (mailLines m.sentTo m.time m.title m.content).takeWhile fun line => decide (line ≠ ['.'])

def text (m : Mail) : Str := joinLines (fromLine m.sender :: m.lines ++ [['.']])

def name (digest : Str → Fin 16 → Fin 256) (m : Mail) : Str := "##".toList ++ hashToMD5 digest m.text

def value (m : Mail) : Str := joinLines (fromLine m.sender :: m.lines ++ [['.'], []])

/-- The first line of a text. -/
def firstLine (text : Str) : Str := (linesOf text).headD []

def row (digest : Str → Fin 16 → Fin 256) (m : Mail) : InboxRow :=
  ⟨hashToMD5 digest m.text, m.sender, firstLine m.title, m.time⟩

/-- A mail as the frontend composes it. -/
structure Proper (m : Mail) : Prop where
  sender : ',' ∉ m.sender ∧ Paired m.sender
  time : '\r' ∉ m.time
  sentTo : Paired m.sentTo
  title : Paired m.title
  content : Paired m.content
  notMem : ['.'] ∉ linesOf m.content ∧ (',' :: done) ∉ linesOf m.content
  nul : '\x00' ∉ m.composed

/-- The addresses are one line each, and no line of the title ends the reply. -/
structure Aligned (m : Mail) : Prop where
  sender : '\r' ∉ m.sender
  sentTo : '\r' ∉ m.sentTo
  title : (',' :: done) ∉ linesOf m.title

theorem firstLine_append {front : Str} (hfront : '\r' ∉ front) (text : Str) :
    ∃ more, linesOf (front ++ text) = (front ++ firstLine text) :: more ∧ linesOf text = firstLine text :: more := by
  rcases exists_line text with hlast | ⟨line, rest, hline, rfl⟩
  · refine ⟨[], ?_, ?_⟩
    · rw [firstLine, linesOf, linesOf, crlfSplit_of_noBreak hlast, crlfSplit_of_noBreak (.append hfront hlast)]
      rfl
    · rw [firstLine, linesOf, crlfSplit_of_noBreak hlast]
      rfl
  · refine ⟨linesOf rest, ?_, ?_⟩
    · rw [firstLine, linesOf_append hline, ← List.append_assoc, linesOf_append (.append hfront hline)]
      rfl
    · rw [firstLine, linesOf_append hline]
      rfl

/-- The page finds the date and the title of a mail in its third and fourth line. -/
theorem exists_lines (m : Mail) : ∃ more, m.lines = ("To: <".toList ++ m.sentTo ++ ['>']) :: ("Date: ".toList ++ m.time) ::
    ("Subject: ".toList ++ firstLine m.title) :: more ∧ ['.'] ∉ more ∧
      ∀ line ∈ more, line ∈ linesOf m.title ∨ line ∈ linesOf m.content := by
  obtain ⟨more, hsubject, htitle⟩ := firstLine_append (by decide : '\r' ∉ "Subject: ".toList) m.title
  have hne {front text : Str} (hfront : '.' ∉ front.take 1) (hlong : front ≠ []) : front ++ text ≠ ['.'] := by
    rintro heq
    cases front with
    | nil => exact hlong rfl
    | cons c front => exact hfront ((List.cons.inj heq).1 ▸ List.mem_cons_self)
  have hto : "To: <".toList ++ m.sentTo ++ ['>'] ≠ ['.'] := by
    rw [List.append_assoc]
    exact hne (by decide) (by decide)
  have hdate : "Date: ".toList ++ m.time ≠ ['.'] := hne (by decide) (by decide)
  have hfirst : "Subject: ".toList ++ firstLine m.title ≠ ['.'] := hne (by decide) (by decide)
  refine ⟨(more ++ linesOf m.content).takeWhile fun line => decide (line ≠ ['.']), ?_, ?_, ?_⟩
  · rw [lines, mailLines, hsubject, List.cons_append, List.cons_append, List.nil_append, List.cons_append,
      List.takeWhile_cons, if_pos (decide_eq_true hto), List.takeWhile_cons, if_pos (decide_eq_true hdate),
      List.takeWhile_cons, if_pos (decide_eq_true hfirst)]
  · intro hmem
    have hdot := List.mem_takeWhile_imp (p := fun line : Str => decide (line ≠ ['.'])) hmem
    exact of_decide_eq_true hdot rfl
  · intro line hline
    rw [htitle]
    exact (List.mem_append.mp ((List.takeWhile_sublist _).subset hline)).imp_left (List.mem_cons_of_mem _)

theorem value_eq (m : Mail) : m.value = m.text ++ "\r\n".toList := by
  have hempty : joinLines [[]] = "\r\n".toList := rfl
  rw [value, text, ← hempty, ← joinLines_append, List.append_assoc]
  rfl

theorem exists_rest (lines : List Str) (d : Str) :
    ∃ rest, lines ++ [d] = lines.takeWhile (fun line => decide (line ≠ d)) ++ d :: rest := by
  induction lines with
  | nil => exact ⟨[], rfl⟩
  | cons line lines ih =>
      obtain ⟨rest, hrest⟩ := ih
      rw [List.takeWhile_cons]
      by_cases hline : line = d
      · subst hline
        exact ⟨lines ++ [line], by rw [if_neg (by simp)]; rfl⟩
      · exact ⟨rest, by rw [if_pos (decide_eq_true hline), List.cons_append, hrest, List.cons_append]⟩

/-- What the mail server reads of a mail: its text. -/
theorem Proper.text_of_readMail {command : Command} {rest : Str} (h : m.Proper) (haligned : m.Aligned)
    (hread : readMail ("Send\r\n".toList ++ m.composed ++ "QUIT\r\n".toList) = some (command, rest)) :
    command.text = m.text ∧ '\x00' ∉ m.text := by
  obtain ⟨back, hrest⟩ := exists_rest (mailLines m.sentTo m.time m.title m.content) ['.']
  have hbreaks : ∀ line ∈ m.lines, NoBreak line := fun line hline =>
    noBreak_mailLines haligned.sentTo h.time line ((List.takeWhile_sublist _).subset hline)
  have hdot : ['.'] ∉ m.lines := fun hmem =>
    of_decide_eq_true (List.mem_takeWhile_imp (p := fun line : Str => decide (line ≠ ['.'])) hmem) rfl
  have hcomposed : m.composed = fromLine m.sender ++ '\r' :: '\n' :: (joinLines m.lines ++ (".\r\n".toList ++ joinLines back)) := by
    have hjoin : joinLines (mailLines m.sentTo m.time m.title m.content) ++ ".\r\n".toList =
        joinLines m.lines ++ (".\r\n".toList ++ joinLines back) :=
      calc joinLines (mailLines m.sentTo m.time m.title m.content) ++ ".\r\n".toList
          = joinLines (mailLines m.sentTo m.time m.title m.content ++ [['.']]) := (joinLines_append _ [['.']]).symm
        _ = joinLines (m.lines ++ ['.'] :: back) := congrArg joinLines hrest
        _ = joinLines m.lines ++ (".\r\n".toList ++ joinLines back) := joinLines_append ..
    rw [composed, composeEmail_lines, hjoin]
  have hstream : "Send\r\n".toList ++ m.composed ++ "QUIT\r\n".toList = "Send\r\n".toList ++ (fromLine m.sender ++
      '\r' :: '\n' :: (joinLines m.lines ++ (".\r\n".toList ++ (joinLines back ++ "QUIT\r\n".toList)))) := by
    rw [hcomposed]
    simp only [List.append_assoc, List.cons_append]
  have htext : m.text ++ joinLines back = m.composed := by
    have hend : joinLines (fromLine m.sender :: m.lines ++ [['.']]) =
        fromLine m.sender ++ '\r' :: '\n' :: (joinLines m.lines ++ ".\r\n".toList) := by
      rw [joinLines_append, joinLines_cons]
      rfl
    rw [hcomposed, text, hend]
    simp only [List.append_assoc, List.cons_append]
  have hnul : '\x00' ∉ m.text := fun hmem => h.nul (htext ▸ List.mem_append_left _ hmem)
  refine ⟨?_, hnul⟩
  rw [hstream, readMail_lines (noBreak_fromLine haligned.sender) hbreaks hdot] at hread
  split at hread
  · obtain ⟨rfl, _⟩ := Prod.mk.inj (Option.some.inj hread)
    have hflat : ((fromLine m.sender :: m.lines).map (· ++ "\r\n".toList)).flatten ++ ".\r\n".toList = m.text := by
      rw [text, joinLines_append, joinLines, List.flatMap_def]
      rfl
    rw [← hflat] at hnul
    rw [Command.text, map_cstr_of_notMem fun hmem => hnul (List.mem_append_left _ hmem),
      Chunkserver.cstr_of_notMem fun hmem => hnul (List.mem_append_right _ hmem), hflat]
  · cases hread

/-! ### The lines of a listing -/

def block (digest : Str → Fin 16 → Fin 256) (lead : Str) (m : Mail) : List Str :=
  (lead ++ (m.name digest ++ ',' :: fromLine m.sender)) :: (m.lines ++ [['.'], []])

/-- The lines of a listing. What stands in front of a mail ends its first line. -/
def listed (digest : Str → Fin 16 → Fin 256) : Str → List Mail → List Str
  | _, [] => []
  | lead, m :: mails => block digest lead m ++ listed digest [','] mails

theorem joinLines_block (digest : Str → Fin 16 → Fin 256) (lead : Str) (m : Mail) :
    joinLines (block digest lead m) = lead ++ (m.name digest ++ ',' :: m.value) := by
  have hshape : ∀ front rest : Str, ∀ first : Str, ∀ lines : List Str,
      joinLines ((front ++ (rest ++ ',' :: first)) :: lines) = front ++ (rest ++ ',' :: joinLines (first :: lines)) := by
    intro front rest first lines
    simp [joinLines]
  exact hshape ..

theorem entries_eq (digest : Str → Fin 16 → Fin 256) (lead : Str) (m : Mail) (mails : List Mail) :
    lead ++ (m :: mails).flatMap (fun m => typeEntry (m.name digest) m.value) =
      joinLines (listed digest lead (m :: mails)) ++ [','] := by
  induction mails generalizing lead m with
  | nil =>
      rw [listed, listed, List.append_nil, joinLines_block, List.flatMap_singleton, typeEntry]
      simp only [List.append_assoc, List.cons_append]
  | cons m' mails ih =>
      rw [List.flatMap_cons, listed, joinLines_append, List.append_assoc, ← ih, joinLines_block, typeEntry]
      simp only [List.append_assoc, List.cons_append, List.nil_append]

/-! ### The rows -/

theorem name_plain (digest : Str → Fin 16 → Fin 256) (m : Mail) :
    ',' ∉ m.name digest ∧ '\r' ∉ m.name digest ∧ '\x00' ∉ m.name digest := by
  have hdigits {c : Char} (hc : ∀ n : Fin 16, Nat.digitChar n ≠ c) (hfront : c ∉ "##".toList) : c ∉ m.name digest :=
    fun hmem => (List.mem_append.mp hmem).elim hfront (notMem_hashToMD5 hc digest m.text)
  exact ⟨hdigits (by decide) (by decide), hdigits (by decide) (by decide), hdigits (by decide) (by decide)⟩

theorem Proper.sender_nul (h : m.Proper) : '\x00' ∉ fromLine m.sender := by
  intro hmem
  apply h.nul
  rw [composed, composeEmail_lines]
  exact List.mem_append_left _ hmem

theorem Proper.split_first (h : m.Proper) (digest : Str → Fin 16 → Fin 256) :
    split (cstr (m.name digest ++ ',' :: fromLine m.sender)) ',' = [m.name digest, fromLine m.sender] := by
  have hnul : '\x00' ∉ m.name digest ++ ',' :: fromLine m.sender := by
    intro hmem
    rcases List.mem_append.mp hmem with hmem | hmem
    · exact (m.name_plain digest).2.2 hmem
    · exact (List.mem_cons.mp hmem).elim (by decide) h.sender_nul
  have hcomma : ',' ∉ fromLine m.sender := by
    intro hmem
    exact (List.mem_append.mp hmem).elim (fun hmem => (List.mem_append.mp hmem).elim (by decide) h.sender.1) (by decide)
  have hne : fromLine m.sender ≠ [] := List.append_ne_nil_of_right_ne_nil _ (List.cons_ne_nil _ _)
  rw [Chunkserver.cstr_of_notMem hnul, split_append (m.name_plain digest).1, split_of_notMem hcomma hne]

/-- One mail is one row, and the loop goes on behind its empty line. -/
theorem Proper.inboxRows_block (h : m.Proper) {lead : Str} (hlead : lead = [] ∨ lead = [',']) (n : Nat) (rest : List Str) :
    inboxRows (n + 1) (block digest lead m ++ rest) = inboxRows n rest >>= fun rows => .ok (m.row digest :: rows) := by
  obtain ⟨more, hlines, hdot, _⟩ := m.exists_lines
  have hfirst : ∃ c, atIdx (lead ++ (m.name digest ++ ',' :: fromLine m.sender)) 0 = .ok c ∧
      (if c = ',' then (lead ++ (m.name digest ++ ',' :: fromLine m.sender)).drop 1
        else lead ++ (m.name digest ++ ',' :: fromLine m.sender)) = m.name digest ++ ',' :: fromLine m.sender := by
    rcases hlead with rfl | rfl
    · exact ⟨'#', rfl, if_neg (by decide)⟩
    · exact ⟨',', rfl, if_pos rfl⟩
  obtain ⟨c, hc, hline⟩ := hfirst
  have htake : (m.name digest ++ ',' :: fromLine m.sender).take 2 = "##".toList := rfl
  have hkey : substrFrom (m.name digest) 2 = .ok (hashToMD5 digest m.text) := substrFrom_append "##".toList _
  have hdate : substrFrom ("Date: ".toList ++ m.time) 6 = .ok m.time := substrFrom_append "Date: ".toList m.time
  have hsubject : substrFrom ("Subject: ".toList ++ firstLine m.title) 9 = .ok (firstLine m.title) :=
    substrFrom_append "Subject: ".toList (firstLine m.title)
  have hcontent : readContent (more ++ ['.'] :: [] :: rest) = .ok (joinLines more, [] :: rest) := readContent_lines hdot rest
  have haddress : addressIn (fromLine m.sender) = .ok m.sender := addressIn_from m.sender
  rw [block, hlines]
  simp only [List.cons_append, List.append_assoc, List.nil_append, inboxRows]
  rw [hc, Run.ok_bind, hline, if_pos htake, h.split_first digest]
  simp only [atIdx, List.getElem?_cons_zero, List.getElem?_cons_succ, Run.ok_bind, haddress, List.drop_succ_cons,
    List.drop_zero, hcontent, hkey, hsubject, hdate]
  rfl

/-- The table has a row for each mail of a listing. -/
theorem inboxRows_listed {mails : List Mail} (hproper : ∀ m ∈ mails, m.Proper) {lead : Str} (hlead : lead = [] ∨ lead = [','])
    {n : Nat} (hn : mails.length ≤ n) : inboxRows n (listed digest lead mails) = .ok (mails.map (row digest)) := by
  induction mails generalizing lead n with
  | nil => cases n <;> rfl
  | cons m mails ih =>
      obtain ⟨hm, hproper⟩ := List.forall_mem_cons.mp hproper
      rw [List.length_cons] at hn
      obtain ⟨n, rfl⟩ : ∃ k, n = k + 1 := ⟨n - 1, by omega⟩
      rw [listed, hm.inboxRows_block hlead, ih hproper (Or.inr rfl) (by omega), Run.ok_bind, List.map_cons]

theorem length_le_listed (digest : Str → Fin 16 → Fin 256) (lead : Str) (mails : List Mail) :
    mails.length ≤ (listed digest lead mails).length := by
  induction mails generalizing lead with
  | nil => exact Nat.zero_le _
  | cons m mails ih =>
      rw [listed, List.length_append, block, List.length_cons, List.length_cons]
      have hrest := ih [',']
      omega

theorem listed_readable {mails : List Mail} (hproper : ∀ m ∈ mails, m.Proper ∧ m.Aligned) {lead : Str}
    (hlead : lead = [] ∨ lead = [',']) : ∀ line ∈ listed digest lead mails, '\r' ∉ line ∧ line ≠ ',' :: done := by
  induction mails generalizing lead with
  | nil => exact fun line hline => absurd hline List.not_mem_nil
  | cons m mails ih =>
      obtain ⟨⟨hm, haligned⟩, hproper⟩ := List.forall_mem_cons.mp hproper
      obtain ⟨more, hlines, _, hmore⟩ := m.exists_lines
      have hheader {front text : Str} (hfront : '\r' ∉ front ∧ ',' ∉ front.take 1 ∧ front ≠ []) (htext : '\r' ∉ text) :
          '\r' ∉ front ++ text ∧ front ++ text ≠ ',' :: done := by
        refine ⟨fun hmem => (List.mem_append.mp hmem).elim hfront.1 htext, fun heq => ?_⟩
        cases front with
        | nil => exact hfront.2.2 rfl
        | cons c front => exact hfront.2.1 ((List.cons.inj heq).1 ▸ List.mem_cons_self)
      have hto : '\r' ∉ m.sentTo ++ ['>'] := fun hmem => (List.mem_append.mp hmem).elim haligned.sentTo (by decide)
      have hsubject : '\r' ∉ firstLine m.title := by
        obtain ⟨_, _, htitle⟩ := firstLine_append (List.not_mem_nil (a := '\r')) m.title
        exact hm.title.notMem_linesOf (htitle ▸ List.mem_cons_self)
      have hfirst : '\r' ∉ m.name digest ++ ',' :: fromLine m.sender := by
        intro hmem
        rcases List.mem_append.mp hmem with hmem | hmem
        · exact (m.name_plain digest).2.1 hmem
        · rcases List.mem_cons.mp hmem with heq | hmem
          · exact absurd heq (by decide)
          · exact (List.mem_append.mp hmem).elim (fun hmem => (List.mem_append.mp hmem).elim (by decide) haligned.sender) (by decide)
      rw [listed, List.forall_mem_append]
      refine ⟨?_, ih hproper (Or.inr rfl)⟩
      rw [block, hlines, List.cons_append, List.cons_append, List.cons_append, List.append_assoc, List.forall_mem_cons,
        List.forall_mem_cons, List.forall_mem_cons, List.forall_mem_cons, List.forall_mem_append]
      refine ⟨?_, ?_, hheader (by decide) hm.time, hheader (by decide) hsubject, fun line hline => ?_, by decide⟩
      · rcases hlead with rfl | rfl
        · exact ⟨hfirst, fun heq => absurd (List.cons.inj heq).1 (by decide)⟩
        · refine ⟨fun hmem => (List.mem_append.mp hmem).elim (by decide) hfirst, fun heq => ?_⟩
          exact absurd (List.cons.inj (List.cons.inj heq).2).1 (by decide)
      · exact hheader (by decide) hto
      · rcases hmore line hline with hmem | hmem
        · exact ⟨hm.title.notMem_linesOf hmem, fun heq => haligned.title (heq ▸ hmem)⟩
        · exact ⟨hm.content.notMem_linesOf hmem, fun heq => hm.notMem.2 (heq ▸ hmem)⟩

end Mail

/-! ### The reply -/

theorem exists_header (files : Map Str) :
    ∃ header, (header = [] ∨ header = ["+OK list as follows: ".toList]) ∧
      ((files.toList.filter fun file => isEmail file.1) = [] → header = []) ∧
      (listing isEmail typeEntry files).flatten =
        joinLines header ++ (files.toList.filter fun file => isEmail file.1).flatMap fun file => typeEntry file.1 file.2 := by
  rw [flatten_listing]
  cases hfirst : firstWanted isEmail files with
  | false => exact ⟨[], Or.inl rfl, fun _ => rfl, rfl⟩
  | true =>
      obtain ⟨file, hhead, hemail⟩ := (Option.any_eq_true _ _).mp hfirst
      refine ⟨["+OK list as follows: ".toList], Or.inr rfl, fun hnil => ?_, rfl⟩
      exact absurd hemail (List.filter_eq_nil_iff.mp hnil file (List.mem_of_head? hhead))

namespace Chunkserver

variable {s : Chunkserver} {user : Str} {r : Ref}

theorem worker_getEmails (hwired : s.lru.Wired) (hresident : s.lru.tablets[user]? = some r) (huser : ',' ∉ user)
    (hnul : '\x00' ∉ user) (fuel : Nat) (commFd : Int) :
    ∃ t, s.worker fuel commFd (cstr (getEmailsMessage user)) = .ok t ∧
      repliesOn commFd s t = (listing isEmail typeEntry (s.lru.heap r).value).flatten ++ doneLine := by
  have hmessage : getEmailsMessage user = (Query.getlist user "email".toList).message := by
    have hshape : ∀ front back : Str, front ++ user ++ (',' :: (back ++ "\r\n".toList)) =
        front ++ (user ++ ',' :: back ++ "\r\n".toList) := by
      intro front back
      simp
    exact hshape "getlist ".toList "email".toList
  have hreceived : (Query.getlist user "email".toList).received = user ++ ',' :: ("email".toList ++ "\r\n".toList) := by
    have hshape : (Query.getlist user "email".toList).received = cstr (user ++ ',' :: "email\r\n".toList) :=
      congrArg cstr (List.append_assoc ..)
    rw [hshape, cstr_append hnul]
    rfl
  have hwanted : isOfType "email".toList = isEmail := by
    funext filename
    rw [isOfType, decide_eq_true rfl, Bool.true_and, decide_eq_false (by decide), Bool.false_and, Bool.or_false]
  obtain ⟨lru, hrun⟩ := hwired.listFiles_returns hresident fuel commFd isEmail typeEntry
  refine ⟨({ s with lru := lru } : Chunkserver).sendDone commFd, ?_, ?_⟩
  · rw [hmessage, worker_getlist Query.parseCommand_message, getlist, show argumentsOf _ 8 = _ from Query.argumentsOf_message,
      Run.ok_bind, hreceived, parseLine_two huser]
    dsimp only
    rw [chopTwo_append]
    change ((s.lru.listFiles fuel user commFd (isOfType "email".toList) typeEntry >>= _) >>= _) = _
    rw [hwanted, hrun]
    rfl
  · exact reply_texts (sent_listFiles hwired hresident hrun)

end Chunkserver

/-! ### Deliveries -/

/-- The mail server reads a mail off its connection, and the node stores it with a user who is in memory and stays
there. -/
def Delivers (digest : Str → Fin 16 → Fin 256) (user : Str) (s : Chunkserver) (m : Mail) (t : Chunkserver) : Prop :=
  ∃ command rest rcvr fuel commFd r,
    readMail ("Send\r\n".toList ++ m.composed ++ "QUIT\r\n".toList) = some (command, rest) ∧
    localRcvr command.data = some rcvr ∧ userName rcvr = user ∧
    s.handleSend digest fuel commFd command.data command.last = .ok t ∧
    s.lru.tablets[user]? = some r ∧ t.lru.tablets[user]? = some r ∧
    ¬ s.lru.Refused user (command.text ++ "\r\n".toList)

theorem worker_of_handleSend {s t : Chunkserver} {fuel : Nat} {commFd : Int} {data : List Str} {last rcvr : Str}
    (hrcvr : localRcvr data = some rcvr) (hsend : s.handleSend digest fuel commFd data last = .ok t) :
    s.worker fuel commFd (cstr (mailMessage digest (userName rcvr) ((data.map cstr).flatten ++ cstr last))) = .ok t := by
  rw [handleSend, hrcvr] at hsend
  obtain ⟨⟨rep, t'⟩, hbackend, hdone⟩ := Run.bind_eq_ok.mp hsend
  obtain rfl := Except.ok.inj hdone
  obtain ⟨t', hworker, hreply⟩ := Run.bind_eq_ok.mp hbackend
  obtain ⟨_, _, hpair⟩ := Run.bind_eq_ok.mp hreply
  obtain ⟨_, rfl⟩ := Prod.mk.inj (Except.ok.inj hpair)
  exact hworker

theorem Delivers.wired {s t : Chunkserver} {user : Str} {m : Mail} (hrun : Delivers digest user s m t)
    (h : s.lru.Wired) : t.lru.Wired := by
  obtain ⟨_, _, _, _, _, _, _, hrcvr, _, hsend, _⟩ := hrun
  exact lasting_wired.worker h (worker_of_handleSend hrcvr hsend)

/-- The mails that a user in memory has, each in a file of its own. -/
structure Mailbox (digest : Str → Fin 16 → Fin 256) (user : Str) (r : Ref) (s : Chunkserver) (mails : List Mail) : Prop where
  wired : s.lru.Wired
  resident : s.lru.tablets[user]? = some r
  files : ((s.lru.heap r).value.toList.filter fun file => isEmail file.1).Perm
    (mails.map fun m => (m.name digest, m.value))

namespace Mailbox

variable {s t : Chunkserver} {user : Str} {r : Ref} {m : Mail} {mails : List Mail}

theorem name_new (h : Mailbox digest user r s mails)
    (hnew : ∀ m' ∈ mails, hashToMD5 digest m.text ≠ hashToMD5 digest m'.text) :
    (s.lru.heap r).value[m.name digest]? = none := by
  by_contra hne
  obtain ⟨value, hvalue⟩ := Option.ne_none_iff_exists'.mp hne
  have hmem : (m.name digest, value) ∈ (s.lru.heap r).value.toList.filter fun file => isEmail file.1 :=
    List.mem_filter.mpr ⟨ExtTreeMap.mem_toList_iff_getElem?_eq_some.mpr hvalue, rfl⟩
  obtain ⟨m', hm', heq⟩ := List.mem_map.mp (h.files.mem_iff.mp hmem)
  exact hnew m' hm' (List.append_cancel_left (Prod.mk.inj heq).1).symm

theorem delivers (h : Mailbox digest user r s mails) (huser : ',' ∉ user) (hnul : '\x00' ∉ user) (hproper : m.Proper)
    (haligned : m.Aligned) (hnew : ∀ m' ∈ mails, hashToMD5 digest m.text ≠ hashToMD5 digest m'.text)
    (hrun : Delivers digest user s m t) : Mailbox digest user r t (mails ++ [m]) := by
  obtain ⟨command, rest, rcvr, fuel, commFd, r', hread, hrcvr, rfl, hsend, hresident, hstays, htaken⟩ := hrun
  obtain rfl := Option.some.inj (hresident.symm.trans h.resident)
  obtain ⟨htext, htextNul⟩ := hproper.text_of_readMail haligned hread
  have hvalueNul : '\x00' ∉ m.text ++ "\r\n".toList := fun hmem => (List.mem_append.mp hmem).elim htextNul (by decide)
  have hmessage : cstr (mailMessage digest (userName rcvr) m.text) =
      "put ".toList ++ (userName rcvr ++ ',' :: (m.name digest ++ ',' :: m.value)) := by
    rw [cstr_mailMessage hnul, cstr_of_notMem hvalueNul, m.value_eq, Mail.name]
  have hworker := worker_of_handleSend hrcvr hsend
  rw [← Command.text, htext] at hworker
  rw [htext, ← m.value_eq] at htaken
  obtain ⟨lru, hexec, hheap, hnodes, htablets, hvirmem⟩ :=
    exec_of_putMessage huser (m.name_plain digest).1 hmessage hworker
  have hvalue := h.wired.put_stays hresident htaken hexec (htablets ▸ hstays)
  refine ⟨(closed_wired.exec h.wired hexec).congr hheap hnodes htablets fun u hu => hvirmem ▸ hu, hstays, ?_⟩
  have habsent := h.name_new hnew
  rw [hheap, hvalue, ExtTreeMap.getD_eq_getD_getElem?, habsent, Option.getD_none, List.nil_append]
  have hfirst := ((SortedMap.toList_insert_perm (s.lru.heap r').value (m.name digest) m.value).filter
    fun file => isEmail file.1)
  have hemail : isEmail (m.name digest) = true := rfl
  rw [SortedMap.erase_eq_self habsent, List.filter_cons, hemail, if_pos rfl] at hfirst
  rw [List.map_append, List.map_singleton]
  exact (hfirst.trans (h.files.cons _)).trans (List.perm_append_singleton _ _).symm

theorem of_run (huser : ',' ∉ user) (hnul : '\x00' ∉ user) (h : Mailbox digest user r s [])
    (hrun : Run.Runs (Delivers digest user) s mails t) (hproper : ∀ m ∈ mails, m.Proper ∧ m.Aligned)
    (hdistinct : mails.Pairwise fun m m' => hashToMD5 digest m.text ≠ hashToMD5 digest m'.text) :
    Mailbox digest user r t mails := by
  induction hrun with
  | nil => exact h
  | @snoc mails t t' m _ hstep ih =>
      obtain ⟨hproper, hlast⟩ := List.forall_mem_append.mp hproper
      obtain ⟨hfirst, haligned⟩ := hlast m (List.mem_singleton_self m)
      obtain ⟨hdistinct, _, hnew⟩ := List.pairwise_append.mp hdistinct
      refine (ih hproper hdistinct).delivers huser hnul hfirst haligned (fun m' hm' heq => ?_) hstep
      exact hnew m' hm' m (List.mem_singleton_self m) heq.symm

end Mailbox

/-! ### The page -/

theorem readRep_doneLine (fuel : Nat) (message : Str) : readRep fuel message doneLine = .ok [] := rfl

theorem inboxRows_headline (n : Nat) (rest : List Str) :
    inboxRows (n + 1) ("+OK list as follows: ".toList :: rest) = inboxRows n rest := rfl

namespace Mailbox

variable {s t : Chunkserver} {user : Str} {r : Ref} {mails : List Mail}

theorem readRep_mailbox (h : Mailbox digest user r s mails) (hproper : ∀ m ∈ mails, m.Proper ∧ m.Aligned) :
    ∃ rep rows, rows.Perm (mails.map (Mail.row digest)) ∧ inboxRows rep.length rep = .ok rows ∧
      ∀ fuel, rep.length ≤ fuel → readRep fuel (getEmailsMessage user)
        ((listing isEmail typeEntry (s.lru.heap r).value).flatten ++ doneLine) = .ok rep := by
  obtain ⟨header, hheader, hempty, hlisting⟩ := exists_header (s.lru.heap r).value
  obtain ⟨order, hfiles, hperm⟩ := List.perm_comp_forall₂ h.files
    (List.forall₂_map_left_iff.mpr (List.forall₂_same.mpr fun m _ => rfl) :
      List.Forall₂ (fun file m => file = (m.name digest, m.value)) (mails.map fun m => (m.name digest, m.value)) mails)
  have horder : ((s.lru.heap r).value.toList.filter fun file => isEmail file.1) =
      order.map fun m => (m.name digest, m.value) := by
    rw [← List.forall₂_eq_eq_eq, List.forall₂_map_right_iff]
    exact hfiles
  have hproper : ∀ m ∈ order, m.Proper ∧ m.Aligned := fun m hm => hproper m (hperm.mem_iff.mp hm)
  rw [hlisting, horder, List.flatMap_map]
  refine ⟨header ++ Mail.listed digest [] order, order.map (Mail.row digest), hperm.map _, ?_, fun fuel hfuel => ?_⟩
  · have hrows {n : Nat} (hn : order.length ≤ n) :
        inboxRows n (Mail.listed digest [] order) = .ok (order.map (Mail.row digest)) :=
      Mail.inboxRows_listed (fun m hm => (hproper m hm).1) (Or.inl rfl) hn
    have hlength := Mail.length_le_listed digest [] order
    rcases hheader with rfl | rfl
    · exact hrows hlength
    · rw [List.singleton_append, List.length_cons, inboxRows_headline]
      exact hrows hlength
  · cases order with
    | nil =>
        rw [hempty (by rw [horder]; rfl)]
        exact readRep_doneLine fuel _
    | cons m order =>
        have hentries := Mail.entries_eq digest [] m order
        have hending : endingOf (getEmailsMessage user) = ',' :: done := rfl
        have hlines : ∀ line ∈ header ++ Mail.listed digest [] (m :: order), '\r' ∉ line ∧ line ≠ ',' :: done := by
          rw [List.forall_mem_append]
          refine ⟨?_, Mail.listed_readable hproper (Or.inl rfl)⟩
          rcases hheader with rfl | rfl
          · exact fun line hline => absurd hline List.not_mem_nil
          · decide
        have hfirst : ∃ first lines, header ++ Mail.listed digest [] (m :: order) = first :: lines ∧ first ≠ done := by
          rcases hheader with rfl | rfl
          · exact ⟨_, _, rfl, fun heq => absurd (List.cons.inj heq).1 (by decide)⟩
          · exact ⟨_, _, rfl, by decide⟩
        obtain ⟨first, lines, hsplit, hfirst⟩ := hfirst
        rw [List.nil_append] at hentries
        rw [hentries, ← List.append_assoc, ← joinLines_append, List.append_assoc, hsplit]
        rw [hsplit] at hlines hfuel
        exact readRep_joinLines (hending ▸ hlines) hfirst (by decide) hending.symm (Nat.lt_of_succ_le hfuel)

end Mailbox

/-- The inbox of a user in memory has a row for each mail, as long as no text came twice. -/
theorem listEmails_of_run {capacity fd : Int} {isPrimary optN : Bool} {disk : Disk} {startFuel : Nat}
    {node₀ s t : Chunkserver} {rounds : List Round} {user : Str} {r : Ref} {mails : List Mail} {site : Site}
    (hstart : (boot capacity isPrimary fd disk).initialization startFuel optN = .ok node₀)
    (hreached : Run.Runs Takes node₀ rounds s) (huser : ',' ∉ user) (hnul : '\x00' ∉ user)
    (hresident : s.lru.tablets[user]? = some r) (hempty : ∀ filename ∈ (s.lru.heap r).value, isEmail filename = false)
    (hrun : Run.Runs (Delivers digest user) s mails t) (hproper : ∀ m ∈ mails, m.Proper)
    (hinjective : ∀ m ∈ mails, ∀ m' ∈ mails, hashToMD5 digest m.text = hashToMD5 digest m'.text → m.text = m'.text)
    (haligned : ∀ m ∈ mails, m.Aligned) (hdistinct : (mails.map Mail.text).Nodup) (hnode : site.node = t)
    (hname : site.userName = user) :
    ∃ rows depth, rows.Perm (mails.map (Mail.row digest)) ∧
      ∀ fuel commFd, depth ≤ fuel → ∃ site', site.listEmails fuel commFd = .ok (rows, site') := by
  subst hnode
  subst hname
  have hstarts : Mailbox digest site.userName r s [] := by
    refine ⟨wired_rounds hstart hreached, hresident, ?_⟩
    rw [List.filter_eq_nil_iff.mpr fun file hfile => ?_]
    · exact .refl _
    · have hvalue := ExtTreeMap.mem_toList_iff_getElem?_eq_some.mp hfile
      rw [hempty file.1 (ExtTreeMap.isSome_getElem?_iff_mem.mp (Option.isSome_of_eq_some hvalue))]
      exact Bool.false_ne_true
  have hboth : ∀ m ∈ mails, m.Proper ∧ m.Aligned := fun m hm => ⟨hproper m hm, haligned m hm⟩
  have hhashes : mails.Pairwise fun m m' => hashToMD5 digest m.text ≠ hashToMD5 digest m'.text :=
    (List.pairwise_map.mp hdistinct).imp_of_mem fun hm hm' hne heq => hne (hinjective _ hm _ hm' heq)
  have hends := hstarts.of_run huser hnul hrun hboth hhashes
  obtain ⟨rep, rows, hperm, hrows, hread⟩ := hends.readRep_mailbox hboth
  refine ⟨rows, rep.length, hperm, fun fuel commFd hfuel => ?_⟩
  obtain ⟨t', hworker, hreplies⟩ := Chunkserver.worker_getEmails hends.wired hends.resident huser hnul fuel commFd
  refine ⟨{ site with node := t' }, ?_⟩
  rw [Site.listEmails, sendToBackend, hworker, Run.ok_bind, hreplies, hread fuel hfuel, Run.ok_bind, Run.ok_bind]
  dsimp only
  rw [hrows, Run.ok_bind]

/-! ### Two mails -/

def posted (content : String) : Mail :=
  ⟨"a@localhost.com".toList, "u@localhost.com".toList, "now".toList, "t".toList, content.toList⟩

/-- MD5 on the texts of the two mails. -/
def postedDigest (text : Str) (i : Fin 16) : Fin 256 :=
  (if text = (posted "hi").text then [251, 239, 193, 56, 191, 147, 167, 238, 145, 120, 126, 147, 205, 169, 196, 206]
    else [18, 64, 48, 164, 77, 145, 14, 140, 2, 57, 174, 225, 142, 233, 83, 248]).getD i 0

def post (s : Chunkserver) (m : Mail) : Except Fault Chunkserver :=
  match readMail ("Send\r\n".toList ++ m.composed ++ "QUIT\r\n".toList) with
  | none => .error .exited
  | some (command, _) => do
      let t ← s.handleSend postedDigest 9 4 command.data command.last
      if localRcvr command.data = some "u@localhost.com".toList ∧ s.lru.tablets["u".toList]? = some (.node 0) ∧
          t.lru.tablets["u".toList]? = some (.node 0) ∧ ¬ s.lru.Refused "u".toList (command.text ++ "\r\n".toList) then .ok t
      else .error .exited

theorem delivers_of_post {s t : Chunkserver} {m : Mail} (hpost : post s m = .ok t) :
    Delivers postedDigest "u".toList s m t := by
  rw [post] at hpost
  split at hpost
  · cases hpost
  · next command rest hread =>
      obtain ⟨t', hsend, hpost⟩ := Run.bind_eq_ok.mp hpost
      split at hpost
      · next htests =>
          obtain rfl := Except.ok.inj hpost
          obtain ⟨hrcvr, hresident, hstays, htaken⟩ := htests
          exact ⟨command, rest, _, 9, 4, _, hread, hrcvr, by decide, hsend, hresident, hstays, htaken⟩
      · cases hpost

def postRun (mails : List Mail) : Except Fault (Chunkserver × Chunkserver × Chunkserver) := do
  let node₀ ← (boot 1000 true 5 Disk.empty).initialization 9 true
  let s ← node₀.worker 9 7 (addUserMessage "u".toList "p".toList)
  let t ← mails.foldlM post s
  .ok (node₀, s, t)

/-- The user has a password and no mail before, and the text is listed behind. -/
def postEnds (text : Str) : Chunkserver × Chunkserver × Chunkserver → Bool
  | (_, s, t) => decide (s.lru.tablets["u".toList]? = some (.node 0) ∧
      t.lru.tablets["u".toList]? = some (.node 0) ∧
      (s.lru.heap (.node 0)).value.toList = [("pwd".toList, "p\r\n".toList)] ∧
      (listing isEmail typeEntry (t.lru.heap (.node 0)).value).flatten = text)

theorem empty_of_files {files : Map Str} {value : Str} (hfiles : files.toList = [("pwd".toList, value)]) :
    ∀ filename ∈ files, isEmail filename = false := by
  intro filename hmem
  obtain ⟨value', hvalue⟩ := Option.isSome_iff_exists.mp (ExtTreeMap.isSome_getElem?_iff_mem.mpr hmem)
  have hfile : (filename, value') ∈ files.toList := ExtTreeMap.mem_toList_iff_getElem?_eq_some.mpr hvalue
  rw [hfiles, List.mem_singleton] at hfile
  rw [(Prod.mk.inj hfile).1]
  rfl

theorem runs_of_postRun {mails : List Mail} {node₀ s t : Chunkserver} (hrun : postRun mails = .ok (node₀, s, t)) :
    (boot 1000 true 5 Disk.empty).initialization 9 true = .ok node₀ ∧
      Run.Runs Takes node₀ [.client 7 (addUserMessage "u".toList "p".toList)] s ∧
      Run.Runs (Delivers postedDigest "u".toList) s mails t := by
  obtain ⟨_, hstart, hrest⟩ := Run.bind_eq_ok.mp hrun
  obtain ⟨_, hadd, hrest⟩ := Run.bind_eq_ok.mp hrest
  obtain ⟨_, hposts, hrest⟩ := Run.bind_eq_ok.mp hrest
  cases hrest
  exact ⟨hstart, .snoc .nil ⟨9, hadd⟩, Run.Runs.of_foldlM (fun m _ s s' => delivers_of_post) hposts⟩

theorem posted_proper {content : String} (hreturn : '\r' ∉ content.toList)
    (hlines : ['.'] ∉ linesOf content.toList ∧ (',' :: done) ∉ linesOf content.toList) (hnul : '\x00' ∉ (posted content).composed) :
    (posted content).Proper where
  sender := ⟨(by decide : ',' ∉ "a@localhost.com".toList), paired_of_notMem (by decide : '\r' ∉ "a@localhost.com".toList)⟩
  time := (by decide : '\r' ∉ "now".toList)
  sentTo := paired_of_notMem (by decide : '\r' ∉ "u@localhost.com".toList)
  title := paired_of_notMem (by decide : '\r' ∉ "t".toList)
  content := paired_of_notMem hreturn
  notMem := hlines
  nul := hnul

theorem posted_aligned (content : String) : (posted content).Aligned :=
  ⟨(by decide : '\r' ∉ "a@localhost.com".toList), (by decide : '\r' ∉ "u@localhost.com".toList),
    (by decide : (',' :: done) ∉ linesOf "t".toList)⟩

theorem listEmails_of_run_two : ∃ (t : Chunkserver) (rows : List InboxRow) (depth : Nat),
    rows.Perm ([posted "hi", posted "yo"].map (Mail.row postedDigest)) ∧
    ∀ fuel commFd, depth ≤ fuel → ∃ site', Site.listEmails fuel commFd ⟨⟨∅, ∅⟩, ∅, "u".toList, none, t⟩ = .ok (rows, site') := by
  have hends : (postRun [posted "hi", posted "yo"]).toOption.any (fun run => postEnds (listing isEmail typeEntry
      (run.2.2.lru.heap (.node 0)).value).flatten run) = true := by decide +kernel
  cases hrun : postRun [posted "hi", posted "yo"] with
  | error fault => exact absurd hends (by rw [hrun]; exact Bool.false_ne_true)
  | ok states =>
      obtain ⟨node₀, s, t⟩ := states
      rw [hrun] at hends
      obtain ⟨hresident, _, hfiles, _⟩ := of_decide_eq_true hends
      obtain ⟨hstart, hserved, hdelivers⟩ := runs_of_postRun hrun
      have hproper : ∀ m ∈ [posted "hi", posted "yo"], m.Proper := by
        rw [List.forall_mem_cons, List.forall_mem_singleton]
        exact ⟨posted_proper (by decide) (by decide) (by decide), posted_proper (by decide) (by decide) (by decide)⟩
      have hinjective : ∀ m ∈ [posted "hi", posted "yo"], ∀ m' ∈ [posted "hi", posted "yo"],
          hashToMD5 postedDigest m.text = hashToMD5 postedDigest m'.text → m.text = m'.text := by decide +kernel
      have haligned : ∀ m ∈ [posted "hi", posted "yo"], m.Aligned := by
        rw [List.forall_mem_cons, List.forall_mem_singleton]
        exact ⟨posted_aligned _, posted_aligned _⟩
      obtain ⟨rows, depth, hperm, hlist⟩ := listEmails_of_run hstart hserved (by decide) (by decide) hresident
        (empty_of_files hfiles) hdelivers hproper hinjective haligned (by decide +kernel)
        (rfl : (⟨⟨∅, ∅⟩, ∅, "u".toList, none, t⟩ : Site).node = t) rfl
      exact ⟨t, rows, depth, hperm, hlist⟩

/-- The lines of one file with two equal mails. -/
def twiceLines : List Str :=
  let copy := fromLine (posted "hi").sender :: (posted "hi").lines ++ [['.'], []]
  "+OK list as follows: ".toList :: ((posted "hi").name postedDigest ++ ',' :: copy.headD []) :: (copy.tail ++ copy)

/-- Behind the first of two equal mails the loop comes to an empty line. -/
theorem inboxRows_twiceLines : (inboxRows twiceLines.length twiceLines).toOption = none := by decide +kernel

/-- A mail that is sent twice stops the page. -/
theorem not_listEmails_of_run :
    ¬ ∀ (digest : Str → Fin 16 → Fin 256) (user : Str) (node₀ s t : Chunkserver) (rounds : List Round) (r : Ref)
        (mails : List Mail) (site : Site), (boot 1000 true 5 Disk.empty).initialization 9 true = .ok node₀ →
      Run.Runs Takes node₀ rounds s → ',' ∉ user → '\x00' ∉ user → s.lru.tablets[user]? = some r →
      (∀ filename ∈ (s.lru.heap r).value, isEmail filename = false) → Run.Runs (Delivers digest user) s mails t →
      (∀ m ∈ mails, m.Proper) →
      (∀ m ∈ mails, ∀ m' ∈ mails, hashToMD5 digest m.text = hashToMD5 digest m'.text → m.text = m'.text) →
      site.node = t → site.userName = user →
      ∃ (rows : List InboxRow) (depth : Nat), rows.length = mails.length ∧
        ∀ fuel commFd, depth ≤ fuel → ∃ site', site.listEmails fuel commFd = .ok (rows, site') := by
  intro hall
  have hends : (postRun [posted "hi", posted "hi"]).toOption.any (postEnds (joinLines twiceLines ++ [','])) = true := by
    decide +kernel
  cases hrun : postRun [posted "hi", posted "hi"] with
  | error fault => exact absurd hends (by rw [hrun]; exact Bool.false_ne_true)
  | ok states =>
      obtain ⟨node₀, s, t⟩ := states
      rw [hrun] at hends
      obtain ⟨hresident, hstays, hfiles, hlisting⟩ := of_decide_eq_true hends
      obtain ⟨hstart, hserved, hdelivers⟩ := runs_of_postRun hrun
      have hproper : ∀ m ∈ [posted "hi", posted "hi"], m.Proper := by
        rw [List.forall_mem_cons, List.forall_mem_singleton]
        exact ⟨posted_proper (by decide) (by decide) (by decide), posted_proper (by decide) (by decide) (by decide)⟩
      have hinjective : ∀ m ∈ [posted "hi", posted "hi"], ∀ m' ∈ [posted "hi", posted "hi"],
          hashToMD5 postedDigest m.text = hashToMD5 postedDigest m'.text → m.text = m'.text := by decide +kernel
      obtain ⟨rows, depth, _, hlist⟩ := hall postedDigest "u".toList node₀ s t _ (.node 0) _ ⟨⟨∅, ∅⟩, ∅, "u".toList, none, t⟩
        hstart hserved (by decide) (by decide) hresident (empty_of_files hfiles) hdelivers hproper hinjective rfl rfl
      have hwired : t.lru.Wired :=
        hdelivers.invariant (P := fun _ t => t.lru.Wired) (wired_rounds hstart hserved) fun _ _ _ _ h hstep => hstep.wired h
      obtain ⟨t', hworker, hreplies⟩ := Chunkserver.worker_getEmails hwired hstays (by decide) (by decide)
        (depth + twiceLines.length) 7
      obtain ⟨site', hlist⟩ := hlist (depth + twiceLines.length) 7 (Nat.le_add_right ..)
      have hending : endingOf (getEmailsMessage "u".toList) = ',' :: done := rfl
      have hlines : ∀ line ∈ twiceLines, '\r' ∉ line ∧ line ≠ ',' :: done := by decide +kernel
      have hread : readRep (depth + twiceLines.length) (getEmailsMessage "u".toList)
          (joinLines twiceLines ++ ([','] ++ doneLine)) = .ok twiceLines :=
        readRep_joinLines hlines (by decide) (by decide) hending.symm (Nat.lt_of_lt_of_le (Nat.lt_succ_self _) (Nat.le_add_left ..))
      rw [Site.listEmails, sendToBackend, hworker, Run.ok_bind, hreplies, hlisting, List.append_assoc, hread, Run.ok_bind,
        Run.ok_bind] at hlist
      obtain ⟨rows', hrows, _⟩ := Run.bind_eq_ok.mp hlist
      have hnone := inboxRows_twiceLines
      rw [hrows] at hnone
      cases hnone

end PennCloud
