import PennCloud.Webmail.Proof.Arrival

/-!
# Mail to several recipients

`handle_send` takes all addresses of a `To:` line apart and returns once it has stored the mail for the first of them. The
others get their mail only if they are that one.
-/

namespace PennCloud.Webmail

variable {c : Char} {front mid rest user rcvr data text : Str} {users : List Str}

/-! ### The brackets of a line -/

theorem findFirstOf_drop (c : Char) (data : Str) (pos : Nat) : findFirstOf c data pos = (findFirstOf c (data.drop pos) 0).map (pos + ·) := by
  simp only [findFirstOf, List.drop_zero, Option.map_map]
  apply congrArg (Option.map · _)
  funext i
  exact congrArg (pos + ·) (Nat.zero_add i).symm

theorem findFirstOf_behind (front : Str) (hmid : c ∉ mid) (rest : Str) :
    findFirstOf c (front ++ (mid ++ c :: rest)) front.length = some (front.length + mid.length) := by
  rw [findFirstOf_drop, List.drop_left, findFirstOf_append mid hmid]
  rfl

theorem findFirstOf_none (hmid : c ∉ mid) : findFirstOf c (front ++ mid) front.length = none := by
  rw [findFirstOf_drop, List.drop_left, findFirstOf, List.drop_zero, Option.map_map, Option.map_eq_none_iff,
    List.findIdx?_eq_none_iff]
  intro c' hc'
  simpa using fun heq : c' = c => hmid (heq ▸ hc')

/-- A local address of a user. -/
def address (user : Str) : Str := user ++ "@localhost.com".toList

/-- The addresses behind the first, and the end of the line. -/
def otherAddresses (users : List Str) : Str :=
  (users.flatMap fun user => ", <".toList ++ (address user ++ ['>'])) ++ "\r\n".toList

/-- The line that lists these users. -/
def toLine (user : Str) (users : List Str) : Str := "To: <".toList ++ (address user ++ '>' :: otherAddresses users)

/-- A user part of an address. -/
structure IsUser (user : Str) : Prop where
  notMem_open : '<' ∉ user
  notMem_close : '>' ∉ user
  notMem_at : '@' ∉ user

theorem IsUser.notMem_address (h : IsUser user) : '<' ∉ address user ∧ '>' ∉ address user :=
  ⟨fun hmem => (List.mem_append.mp hmem).elim h.notMem_open (by decide),
    fun hmem => (List.mem_append.mp hmem).elim h.notMem_close (by decide)⟩

theorem otherAddresses_cons (user : Str) (users : List Str) :
    otherAddresses (user :: users) = [',', ' '] ++ '<' :: (address user ++ '>' :: otherAddresses users) := by
  have hshape : ∀ a b c : Str, ([',', ' ', '<'] ++ (a ++ ['>']) ++ b) ++ c = [',', ' '] ++ '<' :: (a ++ '>' :: (b ++ c)) := by
    intro a b c
    simp
  rw [otherAddresses, List.flatMap_cons]
  exact hshape _ _ _

theorem addressesFrom_round (front rcvr more : Str) (n : Nat) :
    addressesFrom (n + 1) (front ++ '<' :: (rcvr ++ '>' :: more)) (some front.length) (some (front.length + 1 + rcvr.length)) =
      rcvr :: addressesFrom n (front ++ '<' :: (rcvr ++ '>' :: more))
        (findFirstOf '<' (front ++ '<' :: (rcvr ++ '>' :: more)) (front ++ ['<']).length)
        (findFirstOf '>' (front ++ '<' :: (rcvr ++ '>' :: more)) (front ++ ['<'] ++ rcvr ++ ['>']).length) := by
  have hrest : (front ++ '<' :: (rcvr ++ '>' :: more)).drop (front.length + 1) = rcvr ++ '>' :: more := by
    rw [← List.singleton_append, ← List.append_assoc]
    exact List.drop_left' (List.length_append ..)
  have hwidth : front.length + 1 + rcvr.length - front.length - 1 = rcvr.length := by omega
  rw [addressesFrom, hrest]
  simp only [List.length_append, List.length_singleton]
  rw [if_pos (by omega), hwidth, List.take_left]

theorem addressesFrom_otherAddresses (front : Str) (huser : IsUser user) (husers : ∀ user ∈ users, IsUser user) {n : Nat}
    (hn : users.length < n) :
    addressesFrom n (front ++ '<' :: (address user ++ '>' :: otherAddresses users)) (some front.length)
      (some (front.length + 1 + (address user).length)) = (user :: users).map address := by
  obtain ⟨n, rfl⟩ : ∃ m, n = m + 1 := ⟨n - 1, by omega⟩
  have hopen : '<' ∉ address user ++ ['>', ',', ' '] := fun hmem =>
    (List.mem_append.mp hmem).elim huser.notMem_address.1 (by decide)
  induction users generalizing user front n with
  | nil =>
      have hshape : ∀ a b : Str, front ++ '<' :: (a ++ '>' :: b) = (front ++ ['<']) ++ (a ++ '>' :: b) := by
        intro a b
        simp
      have hnone : '<' ∉ address user ++ '>' :: otherAddresses [] := fun hmem =>
        (List.mem_append.mp hmem).elim huser.notMem_address.1 (by decide)
      rw [addressesFrom_round, hshape, findFirstOf_none hnone]
      cases n with
      | zero => rfl
      | succ n => rfl
  | cons next users ih =>
      obtain ⟨hnext, husers⟩ := List.forall_mem_cons.mp husers
      rw [List.length_cons] at hn
      obtain ⟨n, rfl⟩ : ∃ m, n = m + 1 := ⟨n - 1, by omega⟩
      have hclose : '>' ∉ [',', ' ', '<'] ++ address next := fun hmem =>
        (List.mem_append.mp hmem).elim (by decide) hnext.notMem_address.2
      have hopened : ∀ a b c : Str, front ++ '<' :: (a ++ '>' :: ([',', ' '] ++ '<' :: (b ++ '>' :: c))) =
          (front ++ ['<']) ++ ((a ++ ['>', ',', ' ']) ++ '<' :: (b ++ '>' :: c)) := by
        intro a b c
        simp
      have hclosed : ∀ a b c : Str, front ++ '<' :: (a ++ '>' :: ([',', ' '] ++ '<' :: (b ++ '>' :: c))) =
          (front ++ ['<'] ++ a ++ ['>']) ++ (([',', ' ', '<'] ++ b) ++ '>' :: c) := by
        intro a b c
        simp
      have hdata : ∀ a b c : Str, front ++ '<' :: (a ++ '>' :: ([',', ' '] ++ '<' :: (b ++ '>' :: c))) =
          (front ++ ['<'] ++ (a ++ ['>', ',', ' '])) ++ '<' :: (b ++ '>' :: c) := by
        intro a b c
        simp
      have hfirst := findFirstOf_behind (front ++ ['<']) hopen (address next ++ '>' :: otherAddresses users)
      have hlast := findFirstOf_behind (front ++ ['<'] ++ address user ++ ['>']) hclose (otherAddresses users)
      rw [← hopened, ← otherAddresses_cons] at hfirst
      rw [← hclosed, ← otherAddresses_cons] at hlast
      have hback : (front ++ ['<'] ++ address user ++ ['>']).length + ([',', ' ', '<'] ++ address next).length =
          (front ++ ['<'] ++ (address user ++ ['>', ',', ' '])).length + 1 + (address next).length := by
        simp only [List.length_append, List.length_cons, List.length_nil]
        omega
      have hrest := ih (front ++ ['<'] ++ (address user ++ ['>', ',', ' '])) hnext husers n (by omega)
        fun hmem => (List.mem_append.mp hmem).elim hnext.notMem_address.1 (by decide)
      rw [addressesFrom_round, hfirst, hlast, hback, ← List.length_append, otherAddresses_cons, hdata, hrest]
      rfl

theorem length_le_otherAddresses (users : List Str) : users.length ≤ (otherAddresses users).length := by
  induction users with
  | nil => exact Nat.zero_le _
  | cons user users ih =>
      rw [otherAddresses_cons]
      simp only [List.length_append, List.length_cons]
      omega

/-- The loop takes exactly the addresses of the line. -/
theorem addresses_toLine (huser : IsUser user) (husers : ∀ user ∈ users, IsUser user) :
    addresses (toLine user users) = (user :: users).map address := by
  have hline : toLine user users = "To: ".toList ++ '<' :: (address user ++ '>' :: otherAddresses users) := rfl
  have hopen : findFirstOf '<' (toLine user users) 0 = some "To: ".toList.length := by
    rw [hline]
    exact findFirstOf_append _ (by decide) _
  have hclose : findFirstOf '>' (toLine user users) 0 = some ("To: ".toList.length + 1 + (address user).length) := by
    have hfront : '>' ∉ "To: <".toList ++ address user := fun hmem =>
      (List.mem_append.mp hmem).elim (by decide) huser.notMem_address.2
    have hfound := findFirstOf_append _ hfront (otherAddresses users)
    rw [List.append_assoc, List.length_append] at hfound
    exact hfound
  have hrounds : users.length < (toLine user users).length := by
    have hothers := length_le_otherAddresses users
    rw [hline]
    simp only [List.length_append, List.length_cons]
    omega
  rw [addresses, if_pos (show (toLine user users).take 3 = "To:".toList from rfl), hopen, hclose, hline]
  exact addressesFrom_otherAddresses _ huser husers (hline ▸ hrounds)

/-! ### The mail -/

/-- All that was read of a mail. -/
def Command.received (command : Command) : Str := command.data.flatten ++ command.last

/-- A mail whose single `To:` line lists these users, no more than there are places for. -/
structure SentTo (user : Str) (users : List Str) (data : List Str) : Prop where
  line : ∃ front back, data = front ++ toLine user users :: back ∧ ∀ other ∈ front ++ back, other.take 3 ≠ "To:".toList
  areUsers : ∀ rcvr ∈ user :: users, IsUser rcvr
  room : users.length < 20

variable {digest : Str → Fin 16 → Fin 256} {behind : String → Str} {exist : Str → Bool} {left : Str} {s s' : Session} {command : Command}
  {outcome : Outcome}

theorem serverName_address (huser : IsUser user) : serverName (address user) = "localhost.com".toList := by
  have hfound : findFirstOf '@' (address user) 0 = some user.length := findFirstOf_append user huser.notMem_at _
  rw [serverName, hfound]
  exact List.drop_length_add_append 1

theorem userName_address (huser : IsUser user) : userName (address user) = user := by
  have hfound : findFirstOf '@' (address user) 0 = some user.length := findFirstOf_append user huser.notMem_at _
  rw [userName, hfound]
  exact List.take_left

/-- The first recipient of the list is the one that the mail is stored for. -/
theorem SentTo.localRcvr_eq (h : SentTo user users command.data) (hnul : '\x00' ∉ command.data.flatten) :
    localRcvr command.data = some (address user) := by
  obtain ⟨front, back, hdata, hother⟩ := h.line
  have hskip : ∀ lines ⊆ front ++ back, lines.flatMap addresses = [] := by
    intro lines hlines
    rw [List.flatMap_eq_nil_iff]
    intro line hline
    rw [addresses, if_neg (hother line (hlines hline))]
  obtain ⟨huser, husers⟩ := List.forall_mem_cons.mp h.areUsers
  rw [localRcvr, map_cstr_of_notMem hnul, hdata, List.flatMap_append, List.flatMap_cons,
    hskip front (List.subset_append_left _ _), addresses_toLine huser husers, List.nil_append, List.map_cons, List.cons_append,
    List.find?_cons_of_pos]
  rw [serverName_address huser]
  decide

theorem step_send (hsend : s.handler behind command.buf = .send) (hstep : s.step digest behind exist left command = .ok (s', outcome)) :
    outcome.messages = ((localRcvr command.data).map fun rcvr => mailMessage digest (userName rcvr) command.text).toList := by
  unfold Session.step at hstep
  rw [hsend] at hstep
  dsimp only at hstep
  cases hlocal : localRcvr command.data with
  | none =>
      rw [hlocal] at hstep
      cases hstep
      rfl
  | some rcvr =>
      rw [hlocal] at hstep
      cases hstep
      rfl

theorem mailMessage_inj {user' : Str} (heq : mailMessage digest user text = mailMessage digest user' text) : user = user' := by
  exact List.append_cancel_left (List.append_cancel_right heq)

/-! ### A mail with a NUL -/

theorem subset_of_mem_addressesFrom {n : Nat} {found1 found2 : Option Nat} (h : rcvr ∈ addressesFrom n data found1 found2) :
    rcvr ⊆ data := by
  induction n generalizing found1 found2 with
  | zero => cases h
  | succ n ih =>
      cases found1 with
      | none => cases h
      | some found1 =>
          unfold addressesFrom at h
          dsimp only at h
          rcases List.mem_cons.mp h with rfl | h
          · have hdrop : data.drop (found1 + 1) ⊆ data := List.drop_subset _ _
            split
            · split
              · exact List.Subset.trans (List.take_subset _ _) hdrop
              · exact hdrop
            · exact hdrop
          · exact ih h

theorem notMem_of_localRcvr {lines : List Str} (h : localRcvr lines = some rcvr) : '\x00' ∉ rcvr := by
  obtain ⟨line, hline, hrcvr⟩ := List.mem_flatMap.mp (List.mem_of_find?_eq_some h)
  obtain ⟨data, _, rfl⟩ := List.mem_map.mp hline
  rw [addresses] at hrcvr
  split at hrcvr
  · exact fun hmem => Chunkserver.notMem_cstr data (subset_of_mem_addressesFrom hrcvr hmem)
  · cases hrcvr

theorem notMem_text (command : Command) : '\x00' ∉ command.text := by
  rw [Command.text]
  refine fun hmem => (List.mem_append.mp hmem).elim (fun hmem => ?_) (Chunkserver.notMem_cstr _)
  obtain ⟨line, hline, hmem⟩ := List.mem_flatten.mp hmem
  obtain ⟨data, _, rfl⟩ := List.mem_map.mp hline
  exact Chunkserver.notMem_cstr data hmem

theorem text_of_notMem (hnul : '\x00' ∉ command.received) : command.text = command.received := by
  rw [Command.text, map_cstr_of_notMem fun hmem => hnul (List.mem_append_left _ hmem),
    Chunkserver.cstr_of_notMem fun hmem => hnul (List.mem_append_right _ hmem)]
  rfl

theorem notMem_of_mem_messages (hsend : s.handler behind command.buf = .send)
    (hstep : s.step digest behind exist left command = .ok (s', outcome)) {message : Str} (hmessage : message ∈ outcome.messages) :
    '\x00' ∉ message := by
  rw [step_send hsend hstep, Option.mem_toList, Option.map_eq_some_iff] at hmessage
  obtain ⟨rcvr, hrcvr, rfl⟩ := hmessage
  exact notMem_mailMessage_iff.mpr ⟨notMem_userName (notMem_of_localRcvr hrcvr), notMem_text command⟩

/-- Each recipient is sent the mail exactly once iff they are all the same one, and the mail has no NUL. -/
theorem send_iff (hsend : s.handler behind command.buf = .send) (hstep : s.step digest behind exist left command = .ok (s', outcome))
    (hto : SentTo user users command.data) :
    (∀ rcvr ∈ user :: users, outcome.messages.count (mailMessage digest rcvr command.received) = 1) ↔
      '\x00' ∉ command.received ∧ ∀ rcvr ∈ users, rcvr = user := by
  have hfirst (hnul : '\x00' ∉ command.received) : outcome.messages = [mailMessage digest user command.received] := by
    have hlocal := hto.localRcvr_eq fun hmem => hnul (List.mem_append_left _ hmem)
    rw [step_send hsend hstep, hlocal, text_of_notMem hnul]
    change [mailMessage digest (userName (address user)) _] = _
    rw [userName_address (hto.areUsers user List.mem_cons_self)]
  constructor
  · intro hputs
    have hnul : '\x00' ∉ command.received := by
      have hput := hputs user List.mem_cons_self
      have hmem : mailMessage digest user command.received ∈ outcome.messages := List.count_pos_iff.mp (by omega)
      exact (notMem_mailMessage_iff.mp (notMem_of_mem_messages hsend hstep hmem)).2
    refine ⟨hnul, fun rcvr hrcvr => ?_⟩
    have hput := hputs rcvr (List.mem_cons_of_mem user hrcvr)
    rw [hfirst hnul] at hput
    have hmem := List.count_pos_iff.mp (Nat.lt_of_lt_of_eq Nat.zero_lt_one hput.symm)
    exact mailMessage_inj (List.mem_singleton.mp hmem)
  · rintro ⟨hnul, hsame⟩ rcvr hrcvr
    have hrcvr : rcvr = user := (List.mem_cons.mp hrcvr).elim id (hsame rcvr)
    rw [hfirst hnul, hrcvr, List.count_singleton_self]

/-! ### The same recipient and another one -/

/-- A mail to these users. -/
def mailTo (user : Str) (users : List Str) : Command :=
  ⟨"SEND\r\n".toList, ["From: <a@localhost.com>\r\n".toList, toLine user users, "\r\n".toList, "hello\r\n".toList], ".\r\n".toList⟩

theorem sentTo_mailTo (husers : ∀ rcvr ∈ user :: users, IsUser rcvr) (hroom : users.length < 20) :
    SentTo user users (mailTo user users).data :=
  ⟨⟨["From: <a@localhost.com>\r\n".toList], ["\r\n".toList, "hello\r\n".toList], rfl, by decide⟩, husers, hroom⟩

theorem handler_mailTo (user : Str) (users : List Str) : start.handler (fun _ => []) (mailTo user users).buf = .send := by
  change start.handler (fun _ => []) "SEND\r\n".toList = .send
  decide

theorem step_mailTo (digest : Str → Fin 16 → Fin 256) (user : Str) (users : List Str) : ∃ outcome,
    start.step digest (fun _ => []) (fun _ => true) [] (mailTo user users) = .ok (start, outcome) := by
  rw [Session.step, handler_mailTo]
  dsimp only
  split
  · exact ⟨_, rfl⟩
  · exact ⟨_, rfl⟩

/-- Two of the three recipients are the first one again. -/
theorem send_iff_three : ∃ outcome,
    start.step (fun _ _ => 0) (fun _ => []) (fun _ => true) [] (mailTo "bob".toList ["bob".toList, "bob".toList]) = .ok (start, outcome) ∧
      ∀ rcvr ∈ ["bob".toList, "bob".toList, "bob".toList],
        outcome.messages.count (mailMessage (fun _ _ => 0) rcvr (mailTo "bob".toList ["bob".toList, "bob".toList]).received) = 1 := by
  have hbob : IsUser "bob".toList := ⟨by decide, by decide, by decide⟩
  have hto : SentTo "bob".toList ["bob".toList, "bob".toList] (mailTo "bob".toList ["bob".toList, "bob".toList]).data :=
    sentTo_mailTo (List.forall_mem_cons.mpr ⟨hbob, List.forall_mem_cons.mpr ⟨hbob, List.forall_mem_singleton.mpr hbob⟩⟩) (by decide)
  obtain ⟨outcome, hstep⟩ := step_mailTo (fun _ _ => 0) "bob".toList ["bob".toList, "bob".toList]
  exact ⟨outcome, hstep, (send_iff (handler_mailTo _ _) hstep hto).mpr ⟨by decide, by decide⟩⟩

/-- The second recipient is sent nothing. -/
theorem not_send_two : SentTo "bob".toList ["eve".toList] (mailTo "bob".toList ["eve".toList]).data ∧
    ∃ outcome, start.step (fun _ _ => 0) (fun _ => []) (fun _ => true) [] (mailTo "bob".toList ["eve".toList]) = .ok (start, outcome) ∧
      outcome.messages.count (mailMessage (fun _ _ => 0) "eve".toList (mailTo "bob".toList ["eve".toList]).received) = 0 := by
  have husers : ∀ rcvr ∈ ["bob".toList, "eve".toList], IsUser rcvr := by
    intro rcvr hrcvr
    rcases List.mem_cons.mp hrcvr with rfl | hrcvr
    · exact ⟨by decide, by decide, by decide⟩
    · rw [List.mem_singleton.mp hrcvr]
      exact ⟨by decide, by decide, by decide⟩
  have hto := sentTo_mailTo husers (by decide)
  obtain ⟨outcome, hstep⟩ := step_mailTo (fun _ _ => 0) "bob".toList ["eve".toList]
  refine ⟨hto, outcome, hstep, ?_⟩
  have hlocal := hto.localRcvr_eq (by decide)
  rw [step_send (handler_mailTo _ _) hstep, hlocal, text_of_notMem (by decide), List.count_eq_zero]
  intro hmem
  exact absurd (mailMessage_inj (List.mem_singleton.mp hmem)) (by decide)

end PennCloud.Webmail
