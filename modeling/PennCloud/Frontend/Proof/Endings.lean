import PennCloud.Frontend.Proof.Lines
import PennCloud.Kv.Proof.Convergence
import PennCloud.Kv.Proof.Feedback
import PennCloud.Kv.Proof.Residents
import PennCloud.Kv.Proof.Restart

/-!
# Which replies end

The frontend sends five kinds of messages, and reads each reply up to the line it takes for the last one. A node
answers with notices, a report, a value or a listing, and then the line that ends every reply. Whether the two agree
is decided by what the node holds when the message comes.
-/

namespace PennCloud

open LRUCache Chunkserver

/-- The messages of the frontend to a node. -/
inductive Query where
  | put (user filename value : Str)
  | get (user filename : Str)
  | dele (user filename : Str)
  | getlist (user type : Str)
  | getfile (user : Str)

namespace Query

def word : Query → Str
  | .put _ _ _ => "put".toList
  | .get _ _ => "get".toList
  | .dele _ _ => "dele".toList
  | .getlist _ _ => "getlist".toList
  | .getfile _ => "getfile".toList

def arguments : Query → Str
  | .put user filename value => user ++ ',' :: (filename ++ ',' :: value)
  | .get user filename => user ++ ',' :: filename
  | .dele user filename => user ++ ',' :: filename
  | .getlist user type => user ++ ',' :: type
  | .getfile user => user

def message (q : Query) : Str := q.word ++ ' ' :: (q.arguments ++ "\r\n".toList)

/-- What the node reads of the arguments: nothing behind a NUL. -/
def received (q : Query) : Str := cstr (q.arguments ++ "\r\n".toList)

variable {q : Query}

/-- What makes a word a command. -/
def IsWord (word : Str) : Prop :=
  '\x00' ∉ word ∧ ' ' ∉ word ∧ word ≠ [] ∧ word.map Char.toLower = word ∧ word.length ≤ 7

instance (word : Str) : Decidable (IsWord word) := inferInstanceAs (Decidable (_ ∧ _))

theorem isWord : (q : Query) → IsWord q.word
  | .put _ _ _ => (by decide : IsWord "put".toList)
  | .get _ _ => (by decide : IsWord "get".toList)
  | .dele _ _ => (by decide : IsWord "dele".toList)
  | .getlist _ _ => (by decide : IsWord "getlist".toList)
  | .getfile _ => (by decide : IsWord "getfile".toList)

theorem cstr_message : cstr q.message = q.word ++ ' ' :: q.received := by
  have hfront : '\x00' ∉ q.word ++ [' '] := by simp [q.isWord.1]
  have happend := cstr_append hfront (q.arguments ++ "\r\n".toList)
  rw [List.append_assoc, List.append_assoc] at happend
  exact happend

theorem cstr_cstr_message : cstr (cstr q.message) = cstr q.message := cstr_of_notMem (notMem_cstr _)

theorem parseCommand_message : parseCommand (cstr (cstr q.message)) = .ok q.word := by
  obtain ⟨_, hblank, hne, hlower, _⟩ := q.isWord
  rw [cstr_cstr_message, cstr_message, parseCommand_append q.word hblank hne, hlower]

theorem argumentsOf_message : argumentsOf (cstr (cstr q.message)) (q.word.length + 1) = .ok q.received := by
  have harguments := argumentsOf_append (q.word ++ [' ']) q.received
  rw [List.length_append, List.append_assoc] at harguments
  rw [cstr_cstr_message, cstr_message]
  exact harguments

theorem endingOf_getlist (user type : Str) : endingOf (getlist user type).message = ',' :: done := rfl

end Query

/-! ### Texts that end -/

variable {text rest value : Str} {texts : List Str}

theorem Notice.legible_append (h : Notice text) : Legible done (text ++ rest) ↔ Legible done rest := by
  obtain ⟨line, rfl, hreturn, hhead, _⟩ := h
  rw [List.append_assoc]
  refine (PennCloud.legible_append (noBreak_of_notMem hreturn)).trans (and_iff_right ⟨hreturn, ?_⟩)
  rintro rfl
  exact hhead rfl

theorem legible_nil : Legible done [] := ⟨fun _ hline => absurd hline List.not_mem_nil, rfl⟩

theorem Notice.ends (h : Notice text) : Ends done text := by
  rw [ends_done, ← List.append_nil text, h.legible_append]
  exact legible_nil

/-- A text that ends with a line end ends where the loop looks, if nothing in it disturbs. -/
theorem legible_of_last (hlast : (crlfSplit text).2 = []) : Legible done text ↔ Undisturbed done text := by
  rw [legible_iff notMem_done, hlast]
  exact and_iff_left rfl

/-- A value as the frontend stores it: it ends with a line end, and does not contain the last line of a reply. -/
structure Proper (value : Str) : Prop where
  ends : "\r\n".toList <:+ value
  unmarked : ¬ done <:+: value

theorem Proper.last (h : Proper value) : (crlfSplit value).2 = [] := by
  obtain ⟨front, rfl⟩ := h.ends
  exact crlfSplit_last front []

theorem mem_crlfSplit {line : Str} (hline : line ∈ (crlfSplit text).1) : line <:+: text := by
  obtain ⟨front, back, heq⟩ := List.append_of_mem hline
  rw [← crlfSplit_join text, heq]
  refine ⟨front.flatMap (· ++ "\r\n".toList), "\r\n".toList ++ (back.flatMap (· ++ "\r\n".toList) ++ (crlfSplit text).2), ?_⟩
  simp only [List.flatMap_append, List.flatMap_cons, List.append_assoc]

theorem Proper.legible (h : Proper value) : Legible done value ↔ Paired value := by
  rw [legible_of_last h.last]
  refine ⟨Undisturbed.paired, fun hpaired => ⟨hpaired, fun line hline heq => ?_⟩⟩
  exact h.unmarked (heq ▸ mem_crlfSplit hline)

theorem ends_listing (h : text = [] ∨ "\r\n,".toList <:+ text) :
    Ends (',' :: done) text ↔ Undisturbed (',' :: done) text ∧ (crlfSplit text).1.head? ≠ some done := by
  rcases h with rfl | ⟨front, rfl⟩
  · refine iff_of_true ⟨fun _ => Or.inl rfl, nofun, fun hne => absurd rfl hne⟩ ⟨⟨?_, fun _ hline => ?_⟩, nofun⟩
    · exact (paired_of_noBreak noBreak_nil).mpr List.not_mem_nil
    · exact absurd hline List.not_mem_nil
  · have hlast : (crlfSplit (front ++ "\r\n,".toList)).2 = [','] := crlfSplit_last front [',']
    have hlines : (crlfSplit (front ++ "\r\n,".toList)).1 ≠ [] := by
      intro hnil
      have hlength := congrArg List.length (crlfSplit_join (front ++ "\r\n,".toList))
      rw [hnil, hlast] at hlength
      simp at hlength
    have hending : '\r' ∉ ',' :: done := by decide
    have hlegible : Legible (',' :: done) (front ++ "\r\n,".toList) ↔ Undisturbed (',' :: done) (front ++ "\r\n,".toList) := by
      rw [legible_iff hending, hlast]
      exact and_iff_left rfl
    constructor
    · intro h
      exact ⟨hlegible.mp (h.legible hlines), h.first⟩
    · rintro ⟨hundisturbed, hfirst⟩
      exact ⟨fun hnil => absurd hnil hlines, hfirst, fun _ => hlegible.mpr hundisturbed⟩

namespace Chunkserver

variable {s s' t : Chunkserver} {line user filename : Str} {commFd : Int} {fuel : Nat} {others : List (Int × Str)}

theorem repliesOn_of_sent
    (hsent : t.lru.sent = s.lru.sent ++ (texts.map (Prod.mk commFd) ++ others) ++ [(commFd, doneLine)])
    (hothers : ∀ reply ∈ others, reply.1 ≠ commFd) : repliesOn commFd s t = texts.flatten ++ doneLine := by
  have hnone : others.filter (·.1 = commFd) = [] :=
    List.filter_eq_nil_iff.mpr fun reply hmem => by simpa using hothers reply hmem
  rw [repliesOn, hsent, List.append_assoc, List.drop_left, List.filter_append, List.filter_append, hnone]
  simp [List.filter_map, Function.comp_def, List.flatMap_map]

theorem sent_perform {op : Op} (hrun : s.perform fuel line user true op = .ok s') :
    ∃ lru others, s.lru.exec fuel op = .ok lru ∧ s'.lru.sent = lru.sent ++ others ∧
      ∀ reply ∈ others, reply.1 = s.secondaryFd := by
  obtain ⟨lru, hexec, hprimary, hsecondary⟩ := perform_ok hrun
  cases hrole : s.lru.isPrimary with
  | true =>
      obtain ⟨_, hlru, _⟩ := sendToSecondary_ok (hprimary hrole)
      refine ⟨lru, [_], hexec, congrArg LRUCache.sent hlru, fun reply hmem => ?_⟩
      rw [List.mem_singleton.mp hmem]
  | false =>
      rw [hsecondary hrole]
      exact ⟨lru, [], hexec, (List.append_nil _).symm, fun _ hmem => absurd hmem List.not_mem_nil⟩

/-! ### When the frontend and the node agree -/

/-- The text of a list of files. -/
def listText (type : Str) (files : Map Str) : Str := (listing (isOfType type) typeEntry files).flatten

/-- What the node holds does not disturb the reader of the reply. -/
def Agrees (fuel : Nat) (s : LRUCache) (commFd : Int) (q : Query) : Prop :=
  match q with
  | .put _ _ _ => ∀ user filename value, parseLine q.received 3 = [user, filename, value] →
      Undisturbed done (s.report user value 0).flatten
  | .get _ _ => ∀ user filename value t, parseLine q.received 2 = [user, filename] →
      s.getHelper fuel user (chopTwo filename) commFd = .ok (some value, t) → Paired value
  | .dele _ _ => True
  | .getlist _ _ => ∃ user type node, parseLine q.received 2 = [user, type] ∧ s.tablets[user]? = some node ∧
      Undisturbed (',' :: done) (listText (chopTwo type) (s.heap node).value) ∧
      (crlfSplit (listText (chopTwo type) (s.heap node).value)).1.head? ≠ some done
  | .getfile _ => 2 < q.received.length → ∀ node filename, s.tablets[chopTwo q.received]? = some node →
      filename ∈ (s.heap node).value → isEmail filename = true

theorem reply_texts (hsent : s'.lru.sent = s.lru.sent ++ texts.map (Prod.mk commFd)) :
    repliesOn commFd s (s'.sendDone commFd) = texts.flatten ++ doneLine := by
  have hdone : (s'.sendDone commFd).lru.sent = s.lru.sent ++ (texts.map (Prod.mk commFd) ++ []) ++ [(commFd, doneLine)] := by
    change s'.lru.sent ++ [(commFd, doneLine)] = _
    rw [hsent, List.append_nil]
  exact repliesOn_of_sent hdone fun _ hmem => absurd hmem List.not_mem_nil

theorem reply_error :
    repliesOn commFd s ((s.error commFd).sendDone commFd) = "-ERR Not supported\r\n".toList ++ doneLine := by
  have hsent : (s.error commFd).lru.sent = s.lru.sent ++ ["-ERR Not supported\r\n".toList].map (Prod.mk commFd) := rfl
  exact reply_texts hsent

/-- Every value that is stored is one of the frontend: the values in memory, and those that a lookup finds. -/
structure Stored (s : LRUCache) (commFd : Int) : Prop where
  held : ∀ (user filename value : Str) node, s.tablets[user]? = some node →
    (s.heap node).value[filename]? = some value → Proper value
  found : ∀ fuel user filename value t, s.getHelper fuel user filename commFd = .ok (some value, t) → Proper value

theorem listText_shape {type : Str} {files : Map Str}
    (hends : ∀ filename value, files[filename]? = some value → isOfType type filename = true → "\r\n".toList <:+ value) :
    listText type files = [] ∨ "\r\n,".toList <:+ listText type files := by
  refine (listing_cases fun filename value hvalue htype => ?_).imp And.right And.right
  obtain ⟨front, hfront⟩ := hends filename value hvalue htype
  exact ⟨filename ++ ',' :: front, by rw [typeEntry, ← hfront]; simp⟩

/-- The reply for a user in memory. -/
theorem repliesOn_getlist {type u type' : Str} {node : Ref} (hwired : s.lru.Wired)
    (hparse : parseLine (Query.getlist user type).received 2 = [u, type']) (hresident : s.lru.tablets[u]? = some node)
    (hrun : s.worker fuel commFd (cstr (Query.getlist user type).message) = .ok t) :
    repliesOn commFd s t = listText (chopTwo type') (s.lru.heap node).value ++ doneLine := by
  rw [worker_getlist Query.parseCommand_message] at hrun
  obtain ⟨t₁, hlist, ht⟩ := Run.bind_eq_ok.mp hrun
  obtain rfl := Except.ok.inj ht
  rw [getlist, show argumentsOf _ 8 = _ from Query.argumentsOf_message, Run.ok_bind, hparse] at hlist
  obtain ⟨lru, hfiles, ht⟩ := Run.bind_eq_ok.mp hlist
  obtain rfl := Except.ok.inj ht
  rw [getlist_eq] at hfiles
  exact reply_texts (sent_listFiles hwired hresident hfiles)

theorem listFiles_returns {wanted : Str → Bool} {entry : Str → Str → Str} (hwired : s.lru.Wired) :
    ∃ lru, s.lru.listFiles fuel user commFd wanted entry = .ok lru := by
  cases hresident : s.lru.tablets[user]? with
  | none => exact ⟨_, by rw [listFiles, hresident]⟩
  | some node => exact hwired.listFiles_returns hresident fuel commFd wanted entry

theorem worker_getlist_returns {type : Str} (hwired : s.lru.Wired) :
    ∃ t, s.worker fuel commFd (cstr (Query.getlist user type).message) = .ok t := by
  rw [worker_getlist Query.parseCommand_message, getlist, show argumentsOf _ 8 = _ from Query.argumentsOf_message, Run.ok_bind,
    Run.exists_bind_ok]
  split
  · rw [Run.exists_bind_ok, getlist_eq]
    exact listFiles_returns hwired
  · exact ⟨_, rfl⟩

end Chunkserver

end PennCloud
