import PennCloud.Frontend.Proof.Balance
import PennCloud.Frontend.Proof.Replies

/-!
# Whole runs of the load balancer

The requests of `main` and the checks of `check_server_state` in any order. What a client is answered follows from the file of the
servers, the last check of each of them and the last server that anybody was sent to.
-/

namespace PennCloud.LoadBalancer

open Frontend Run

variable {lb lb' : LoadBalancer} {p p' : Process} {content text : Str} {servers : Nat → Server} {n h count fuel id : Nat}
  {events stretch : List Event}

/-! ### The file of the servers -/

/-- `ip + ":" + to_string(port)` for a line of the file. -/
def addressOf (line : Str) : Str :=
  match Fields.cut ':' line with
  | none => []
  | some (ipAddr, port) => ipAddr ++ ':' :: toStr (atoi (cstr port))

/-- The servers are those of the lines, from the one with the number `id` on. -/
theorem readServer_lines {lines : List Str} {servers' : Nat → Server} {id' : Nat}
    (hread : lines.foldlM readServer (id, servers) = .ok (id', servers')) :
    id' = id + lines.length ∧ (∀ i < id, servers' i = servers i) ∧
      ∀ k line, lines[k]? = some line →
        (servers' (id + k)).running = false ∧
          (servers' (id + k)).ip ++ ':' :: toStr (servers' (id + k)).port = addressOf line := by
  induction lines generalizing id servers with
  | nil =>
      obtain ⟨rfl, rfl⟩ := Prod.mk.inj (Except.ok.inj hread)
      exact ⟨rfl, fun _ _ => rfl, nofun⟩
  | cons line lines ih =>
      rw [List.foldlM_cons] at hread
      obtain ⟨state, hfirst, hread⟩ := bind_eq_ok.mp hread
      unfold readServer at hfirst
      split at hfirst
      · cases hfirst
      · next ipAddr port hcut =>
          obtain rfl := Except.ok.inj hfirst
          obtain ⟨hid, hbefore, hlines⟩ := ih hread
          refine ⟨?_, fun i hi => ?_, fun k line' hk => ?_⟩
          · rw [hid, List.length_cons]
            omega
          · rw [hbefore i (by omega), Function.update_of_ne (by omega)]
          · cases k with
            | zero =>
                obtain rfl := Option.some.inj hk
                have hserver : servers' (id + 0) = ⟨id, ipAddr, atoi (cstr port), false⟩ := by
                  rw [Nat.add_zero, hbefore id (Nat.lt_succ_self id), Function.update_self]
                rw [hserver, addressOf, hcut]
                exact ⟨rfl, rfl⟩
            | succ k =>
                have hindex : id + (k + 1) = id + 1 + k := by omega
                rw [hindex]
                exact hlines k line' hk

/-- A file with a server in each line, none of which has been checked. -/
structure Listed (content : Str) (n : Nat) (servers : Nat → Server) : Prop where
  length : n = (split content '\n').length
  address : ∀ id, 1 ≤ id → id ≤ n →
    (servers id).ip ++ ':' :: toStr (servers id).port = addressOf ((split content '\n').getD (id - 1) [])
  stopped : ∀ id, 1 ≤ id → id ≤ n → (servers id).running = false

theorem listed_of_parse (hparse : parseAllServers content = .ok (n, servers)) : Listed content n servers := by
  obtain ⟨⟨id, servers'⟩, hread, hparse⟩ := bind_eq_ok.mp hparse
  obtain ⟨rfl, rfl⟩ := Prod.mk.inj (Except.ok.inj hparse)
  obtain ⟨rfl, _, hlines⟩ := readServer_lines hread
  have hline (id : Nat) (hlow : 1 ≤ id) (hhigh : id ≤ 1 + (split content '\n').length - 1) :
      (servers' id).running = false ∧
        (servers' id).ip ++ ':' :: toStr (servers' id).port = addressOf ((split content '\n').getD (id - 1) []) := by
    have hlt : id - 1 < (split content '\n').length := by omega
    have hkept := hlines (id - 1) _ (List.getElem?_eq_getElem hlt)
    rw [Nat.add_sub_cancel' hlow] at hkept
    rwa [List.getD_eq_getElem?_getD, List.getElem?_eq_getElem hlt, Option.getD_some]
  exact ⟨by omega, fun id hlow hhigh => (hline id hlow hhigh).2, fun id hlow hhigh => (hline id hlow hhigh).1⟩

/-! ### The cursor and the line of the servers -/

/-- When none runs, the cursor goes round once. -/
theorem search_round (hlow : 1 ≤ h) (hhigh : h ≤ n) (hnone : ∀ i, 1 ≤ i → i ≤ n → (servers i).running = false)
    (hcount : count < n) (hfuel : n ≤ count + fuel) :
    ∃ h', search fuel servers n h count = .ok (h', n) ∧ 1 ≤ h' ∧ h' ≤ n ∧ order n h' = (order n h).rotate (n - count) := by
  induction fuel generalizing h count with
  | zero => omega
  | succ fuel ih =>
      obtain ⟨hlow', hhigh'⟩ : 1 ≤ advance n h ∧ advance n h ≤ n := advance_range (by omega)
      have hstopped : ¬ (servers h).running = true := by
        rw [hnone h hlow hhigh]
        exact Bool.false_ne_true
      rw [search, if_neg hstopped]
      dsimp only
      split
      · next hall =>
          obtain rfl : n = count + 1 := by omega
          refine ⟨_, rfl, hlow', hhigh', ?_⟩
          rw [order_advance hlow hhigh, Nat.add_sub_cancel_left]
      · obtain ⟨h', hsearch, hlow'', hhigh'', horder⟩ := @ih _ (count + 1) hlow' hhigh' (by omega) (by omega)
        refine ⟨h', hsearch, hlow'', hhigh'', ?_⟩
        rw [horder, order_advance hlow hhigh, List.rotate_rotate]
        congr 1
        omega

theorem order_inj {h' : Nat} (hlow : 1 ≤ h) (hhigh : h ≤ n) (hlow' : 1 ≤ h') (hhigh' : h' ≤ n)
    (horder : order n h = order n h') : h = h' := by
  obtain ⟨rest, hcons⟩ := order_eq_cons hlow hhigh
  obtain ⟨rest', hcons'⟩ := order_eq_cons hlow' hhigh'
  rw [hcons, hcons'] at horder
  exact (List.cons.inj horder).1

/-- Behind a server, the line begins with the next one. -/
theorem order_advance_eq (hlow : 1 ≤ h) (hhigh : h ≤ n) : order n (advance n h) = (List.range' 1 n).rotate h := by
  rw [order_advance hlow hhigh, order, List.rotate_rotate, Nat.sub_add_cancel hlow]

def servedPage (lb : LoadBalancer) (id : Nat) : Page :=
  .redirect id ((lb.servers id).ip ++ ':' :: toStr (lb.servers id).port)

/-- One request is a stop in the line of the servers, and the cursor stays where it is when there is none. -/
theorem serve_eq (hrange : lb.InRange) (hfuel : lb.numOfServers ≤ fuel) :
    lb.serve fuel = .ok (match Rotation.stop lb.isRunning (order lb.numOfServers lb.handlerServerId) with
      | none => (.noServerRunning, lb)
      | some (id, _) => (lb.servedPage id, { lb with handlerServerId := advance lb.numOfServers id })) := by
  have hn : 1 ≤ lb.numOfServers := Nat.le_trans hrange.1 hrange.2
  cases hstop : Rotation.stop lb.isRunning (order lb.numOfServers lb.handlerServerId) with
  | none =>
      have hnone (i : Nat) (hlow : 1 ≤ i) (hhigh : i ≤ lb.numOfServers) : (lb.servers i).running = false :=
        Rotation.stop_eq_none.mp hstop i (mem_order.mpr ⟨hlow, hhigh⟩)
      obtain ⟨h', hsearch, hlow', hhigh', horder⟩ := @search_round _ _ _ 0 fuel hrange.1 hrange.2 hnone hn (by omega)
      have hsame : h' = lb.handlerServerId := by
        apply order_inj hlow' hhigh' hrange.1 hrange.2
        rw [horder, Nat.sub_zero]
        calc (order lb.numOfServers lb.handlerServerId).rotate lb.numOfServers
            = (order lb.numOfServers lb.handlerServerId).rotate (order lb.numOfServers lb.handlerServerId).length := by
              rw [length_order]
          _ = order lb.numOfServers lb.handlerServerId := List.rotate_length _
      rw [serve, hsearch, ok_bind]
      dsimp only
      rw [if_pos (Nat.le_refl _), hsame]
  | some found =>
      obtain ⟨id, line⟩ := found
      obtain ⟨front, back, horder, hfront, hid, rfl⟩ := Rotation.stop_eq_some hstop
      have hlength : front.length < lb.numOfServers := by
        rw [← length_order (n := lb.numOfServers) (h := lb.handlerServerId), horder, List.length_append, List.length_cons]
        omega
      obtain ⟨hsearch, _⟩ := @search_eq _ _ _ fuel 0 _ _ _ hrange.1 hrange.2 horder hfront hid (by omega) (by omega)
      rw [serve, hsearch, ok_bind]
      dsimp only
      rw [if_neg (by omega)]
      rfl

/-! ### What has happened -/

/-- The outcome of a check of the server. -/
def Event.checkOf (id : Nat) : Event → Option Bool
  | .checked id' connected => if id' = id then some connected else none
  | .answered _ _ => none

def Event.target : Event → Option Nat
  | .checked _ _ => none
  | .answered page _ => page.serverId

/-- The last check of the server found it up. -/
def isUp (events : List Event) (id : Nat) : Bool := (events.reverse.findSome? (Event.checkOf id)).getD false

/-- The last server that a client was sent to, and 0 before the first. -/
def lastServer (events : List Event) : Nat := (events.reverse.findSome? Event.target).getD 0

/-- The first server that is up, from the one behind the last on. -/
def nextPage (content : Str) (events : List Event) : Page :=
  let lines := split content '\n'
  match Rotation.stop (isUp events) ((List.range' 1 lines.length).rotate (lastServer events)) with
  | none => .noServerRunning
  | some (id, _) => .redirect id (addressOf (lines.getD (id - 1) []))

@[simp]
theorem isUp_snoc (event : Event) : isUp (events ++ [event]) id = (event.checkOf id).getD (isUp events id) := by
  rw [isUp, isUp, List.reverse_append, List.reverse_singleton, List.singleton_append, List.findSome?_cons]
  cases event.checkOf id <;> rfl

@[simp]
theorem lastServer_snoc (event : Event) : lastServer (events ++ [event]) = event.target.getD (lastServer events) := by
  rw [lastServer, lastServer, List.reverse_append, List.reverse_singleton, List.singleton_append, List.findSome?_cons]
  cases event.target <;> rfl

/-- What the state of the process says about the events so far. -/
structure Follows (content : Str) (events : List Event) (p : Process) : Prop where
  range : p.lb.InRange
  number : p.lb.numOfServers = (split content '\n').length
  next : 1 ≤ p.next ∧ p.next ≤ p.lb.numOfServers
  address : ∀ id, 1 ≤ id → id ≤ p.lb.numOfServers →
    p.lb.servedPage id = .redirect id (addressOf ((split content '\n').getD (id - 1) []))
  running : ∀ id, 1 ≤ id → id ≤ p.lb.numOfServers → p.lb.isRunning id = isUp events id
  line : order p.lb.numOfServers p.lb.handlerServerId = (List.range' 1 p.lb.numOfServers).rotate (lastServer events)

theorem follows_start (hlisted : Listed content n servers) (hn : 1 ≤ n) : Follows content [] (.start n servers) where
  range := ⟨Nat.le_refl 1, hn⟩
  number := hlisted.length
  next := ⟨Nat.le_refl 1, hn⟩
  address id hlow hhigh := congrArg (Page.redirect id) (hlisted.address id hlow hhigh)
  running id hlow hhigh := hlisted.stopped id hlow hhigh
  line := rfl

theorem Follows.checked (h : Follows content events p) (connected : Bool) :
    Follows content (events ++ [.checked p.next connected]) (p.check connected) where
  range := h.range
  number := h.number
  next := by
    have hn := h.next
    change 1 ≤ (if p.next < p.lb.numOfServers then p.next + 1 else 1) ∧
      (if p.next < p.lb.numOfServers then p.next + 1 else 1) ≤ p.lb.numOfServers
    split <;> omega
  address id hlow hhigh := by
    rw [← h.address id hlow hhigh, servedPage, servedPage, Process.check]
    by_cases heq : id = p.next
    · subst heq
      simp only [Function.update_self]
    · simp only [Function.update_of_ne heq]
  running id hlow hhigh := by
    rw [isUp_snoc, isRunning, Process.check]
    by_cases heq : id = p.next
    · subst heq
      simp [Event.checkOf]
    · simp only [Function.update_of_ne heq]
      rw [Event.checkOf, if_neg (Ne.symm heq), Option.getD_none]
      exact h.running id hlow hhigh
  line := by
    rw [lastServer_snoc]
    exact h.line

/-- What the process does with a request. -/
theorem Follows.serve_eq (h : Follows content events p) (hfuel : p.lb.numOfServers ≤ fuel) :
    ∃ lb', p.lb.serve fuel = .ok (nextPage content events, lb') ∧
      ∀ written, Follows content (events ++ [.answered (nextPage content events) written]) { p with lb := lb' } := by
  have hstop : Rotation.stop p.lb.isRunning (order p.lb.numOfServers p.lb.handlerServerId) =
      Rotation.stop (isUp events) ((List.range' 1 (split content '\n').length).rotate (lastServer events)) := by
    rw [← h.number, ← h.line]
    apply Rotation.stop_congr
    intro id hid
    obtain ⟨hlow, hhigh⟩ := mem_order.mp hid
    exact h.running id hlow hhigh
  have hserve := LoadBalancer.serve_eq h.range hfuel
  have hrunning (page : Page) (written : Str) (id : Nat) :
      isUp (events ++ [.answered page written]) id = isUp events id := isUp_snoc _
  rw [hstop] at hserve
  unfold nextPage
  dsimp only
  cases hfound : Rotation.stop (isUp events) ((List.range' 1 (split content '\n').length).rotate (lastServer events)) with
  | none =>
      rw [hfound] at hserve
      refine ⟨p.lb, hserve, fun written => ⟨h.range, h.number, h.next, h.address, ?_, ?_⟩⟩
      · intro id hlow hhigh
        rw [hrunning, h.running id hlow hhigh]
      · rw [lastServer_snoc]
        exact h.line
  | some found =>
      obtain ⟨id, rest⟩ := found
      rw [hfound] at hserve
      obtain ⟨hlow, hhigh⟩ : 1 ≤ id ∧ id ≤ p.lb.numOfServers := by
        rw [hfound] at hstop
        obtain ⟨front, back, horder, _⟩ := Rotation.stop_eq_some hstop
        apply mem_order.mp (horder ▸ List.mem_append_right _ List.mem_cons_self)
      dsimp only at hserve
      rw [h.address id hlow hhigh] at hserve
      refine ⟨_, hserve, fun written => ⟨advance_range (Nat.le_trans hlow hhigh), h.number, h.next, h.address, ?_, ?_⟩⟩
      · intro id' hlow' hhigh'
        rw [hrunning]
        exact h.running id' hlow' hhigh'
      · rw [lastServer_snoc]
        exact order_advance_eq hlow hhigh

theorem Follows.handle_eq (h : Follows content events p) (hfuel : p.lb.numOfServers ≤ fuel) :
    ∃ lb', (∀ files, p.lb.handle fuel files =
        ((nextPage content events).content files).map fun text => (nextPage content events, response text, lb')) ∧
      ∀ written, Follows content (events ++ [.answered (nextPage content events) written]) { p with lb := lb' } := by
  obtain ⟨lb', hserve, hnext⟩ := h.serve_eq hfuel
  refine ⟨lb', fun files => ?_, hnext⟩
  rw [handle, hserve, ok_bind]
  dsimp only
  cases (nextPage content events).content files <;> rfl

/-- A request is answered as soon as the page can be read. -/
theorem Follows.exists_answer {files : Files} (h : Follows content events p) (hfuel : p.lb.numOfServers ≤ fuel)
    (htext : (nextPage content events).content files = .ok text) :
    ∃ lb', Step fuel p (.answered (nextPage content events) (response text)) { p with lb := lb' } ∧
      Follows content (events ++ [.answered (nextPage content events) (response text)]) { p with lb := lb' } := by
  obtain ⟨lb', heq, hnext⟩ := h.handle_eq hfuel
  have hhandle := heq files
  rw [htext] at hhandle
  exact ⟨lb', .answered files hhandle, hnext _⟩

theorem Follows.page_eq {page : Page} {written : Str} (h : Follows content events p) (hfuel : p.lb.numOfServers ≤ fuel)
    (hstep : Step fuel p (.answered page written) p') : page = nextPage content events := by
  cases hstep with
  | answered files hhandle =>
      obtain ⟨lb', heq, _⟩ := h.handle_eq hfuel
      rw [heq] at hhandle
      cases hcontent : (nextPage content events).content files with
      | error fault =>
          rw [hcontent] at hhandle
          cases hhandle
      | ok text =>
          rw [hcontent] at hhandle
          cases hhandle
          rfl

theorem Follows.step {event : Event} (h : Follows content events p) (hfuel : p.lb.numOfServers ≤ fuel)
    (hstep : Step fuel p event p') : Follows content (events ++ [event]) p' ∧ p'.lb.numOfServers = p.lb.numOfServers := by
  cases hstep with
  | checked connected => exact ⟨h.checked connected, rfl⟩
  | answered files hhandle =>
      obtain ⟨lb', heq, hnext⟩ := h.handle_eq hfuel
      rw [heq] at hhandle
      cases hcontent : (nextPage content events).content files with
      | error fault =>
          rw [hcontent] at hhandle
          cases hhandle
      | ok text =>
          rw [hcontent] at hhandle
          cases hhandle
          exact ⟨hnext _, (hnext []).number.trans h.number.symm⟩

theorem follows_of_runs (hlisted : Listed content n servers) (hn : 1 ≤ n) (hfuel : n ≤ fuel)
    (hrun : Runs (Step fuel) (.start n servers) events p) : Follows content events p ∧ p.lb.numOfServers = n := by
  apply Runs.invariant (P := fun events p => Follows content events p ∧ p.lb.numOfServers = n) ⟨follows_start hlisted hn, rfl⟩ _ hrun
  rintro events p event p' ⟨hfollows, rfl⟩ hstep
  exact hfollows.step hfuel hstep

/-! ### The reader of an answer -/

def headLines (text : Str) : List Str :=
  ["HTTP/1.1 200 OK".toList, "Content-Type: text/html".toList, "Content-Length: ".toList ++ toStr text.length]

theorem receive_response (text : Str) : receive (response text) = some ⟨headLines text, text⟩ := by
  have hbytes : response text = Message.head "\r\n".toList (headLines text) ++ text := by
    have hheader : header = "HTTP/1.1 200 OK".toList ++ ("\r\n".toList ++ ("Content-Type: text/html".toList ++
        ("\r\n".toList ++ "Content-Length: ".toList))) := by decide
    have hending : "\r\n\r\n".toList = "\r\n".toList ++ "\r\n".toList := by decide
    have hhead (status type name number ending : Str) :
        status ++ (ending ++ (type ++ (ending ++ name))) ++ number ++ (ending ++ ending) ++ text =
          Message.head ending [status, type, name ++ number] ++ text := by
      simp [Message.head]
    rw [response, hheader, hending, headLines, hhead]
  have hlines : ∀ line ∈ headLines text, line ≠ [] ∧ Message.Whole "\r\n".toList line := by
    have hnumber : NoBreak (toStr text.length) := noBreak_of_newline (notMem_toStr (by decide) (by decide))
    intro line hline
    rw [whole_iff_noBreak]
    simp only [headLines, List.mem_cons, List.not_mem_nil, or_false] at hline
    rcases hline with rfl | rfl | rfl
    · exact ⟨by decide, noBreak_of_newline (by decide)⟩
    · exact ⟨by decide, noBreak_of_newline (by decide)⟩
    · exact ⟨by simp, (noBreak_append_iff (by decide)).mpr hnumber⟩
  have hlength : lengthIn (headLines text).tail = some (text.length : Int) := by
    have hdrop : ("Content-Length: ".toList ++ toStr text.length).drop 16 = toStr text.length := List.drop_left' rfl
    have htake : ("Content-Length: ".toList ++ toStr text.length).take 16 = "Content-Length: ".toList := List.take_left' rfl
    rw [headLines, List.tail_cons, lengthIn, List.find?_cons_of_neg (by decide), List.find?_cons_of_pos, Option.map_some, hdrop,
      leadingInt_toStr_nil, Option.getD_some]
    exact decide_eq_true htake
  rw [hbytes, receive, Message.readHead_eq_some.mpr ⟨rfl, hlines⟩, Option.bind_eq_bind, Option.bind_some]
  dsimp only
  rw [hlength]
  dsimp only
  rw [if_pos ⟨Int.natCast_nonneg _, Nat.le_refl _⟩, Int.toNat_natCast, List.take_length]

/-! ### The two results -/

/-- Whatever requests and checks there have been, in whatever order, the next client is sent to the first server behind the last one
that anybody was sent to whose last check found it up, under the address of its line, and is told that none runs exactly when no
server is up. It reads the page as it was written. -/
theorem handle_of_runs (hparse : parseAllServers content = .ok (n, servers)) (hn : 1 ≤ n) (hfuel : n ≤ fuel)
    (hrun : Runs (Step fuel) (.start n servers) events p) :
    ∃ lb', (∀ files, p.lb.handle fuel files =
        ((nextPage content events).content files).map fun text => (nextPage content events, response text, lb')) ∧
      ∀ text, receive (response text) = some ⟨headLines text, text⟩ := by
  obtain ⟨hfollows, rfl⟩ := follows_of_runs (listed_of_parse hparse) hn hfuel hrun
  obtain ⟨lb', heq, _⟩ := hfollows.handle_eq hfuel
  exact ⟨lb', heq, receive_response⟩

def twoServers : Str := "10.0.0.1:8000\n10.0.0.2:8001\n".toList

theorem parse_twoServers : ∃ servers, parseAllServers twoServers = .ok (2, servers) := by
  have hrun : (match parseAllServers twoServers with
      | .ok (n, _) => decide (n = 2)
      | .error _ => false) = true := by decide
  split at hrun
  · next n servers hparse =>
      obtain rfl := of_decide_eq_true hrun
      exact ⟨servers, hparse⟩
  · cases hrun

/-- Of two servers that are up a client has been sent to the first, and the next one is sent to the second. -/
theorem handle_of_runs_two : ∃ servers written p lb',
    Runs (Step 2) (.start 2 servers)
      [.checked 1 true, .checked 2 true, .answered (.redirect 1 "10.0.0.1:8000".toList) written] p ∧
    ∀ files, p.lb.handle 2 files = ((Page.redirect 2 "10.0.0.2:8001".toList).content files).map fun text =>
      (.redirect 2 "10.0.0.2:8001".toList, response text, lb') := by
  obtain ⟨servers, hparse⟩ := parse_twoServers
  have hchecks : Runs (Step 2) (.start 2 servers) [.checked 1 true, .checked 2 true]
      (((Process.start 2 servers).check true).check true) := .snoc (.snoc .nil (.checked true)) (.checked true)
  have hfirst : nextPage twoServers [.checked 1 true, .checked 2 true] = .redirect 1 "10.0.0.1:8000".toList := by decide
  obtain ⟨hfollows, _⟩ := follows_of_runs (listed_of_parse hparse) (by decide) (Nat.le_refl 2) hchecks
  rw [← hfirst]
  obtain ⟨lb, hanswer, _⟩ := @Follows.exists_answer _ _ _ 2 _ ⟨∅, ∅⟩ hfollows (Nat.le_refl 2) rfl
  have hrun := hchecks.snoc hanswer
  obtain ⟨lb', heq, _⟩ := handle_of_runs hparse (by decide) (Nat.le_refl 2) hrun
  exact ⟨servers, _, _, lb', hrun, heq⟩

/-! ### No server waits for ever -/

/-- The number of clients that have been answered. -/
def answers : List Event → Nat
  | [] => 0
  | .checked _ _ :: events => answers events
  | .answered _ _ :: events => answers events + 1

@[simp]
theorem answers_append (events stretch : List Event) : answers (events ++ stretch) = answers events + answers stretch := by
  induction events with
  | nil => rw [List.nil_append, answers, Nat.zero_add]
  | cons event events ih =>
      cases event with
      | checked id connected => exact ih
      | answered page written =>
          rw [List.cons_append, answers, answers, ih]
          omega

/-- A client of the stretch is sent to the server. -/
def Visits (stretch : List Event) (id : Nat) : Prop :=
  ∃ page written, .answered page written ∈ stretch ∧ page.serverId = some id

theorem Visits.append_left (h : Visits events id) (stretch : List Event) : Visits (events ++ stretch) id := by
  obtain ⟨page, written, hmem, hpage⟩ := h
  exact ⟨page, written, List.mem_append_left _ hmem, hpage⟩

/-- How many servers are between the last one and this. -/
def distance (n : Nat) (events : List Event) (id : Nat) : Nat := ((List.range' 1 n).rotate (lastServer events)).idxOf id

theorem distance_lt (hlow : 1 ≤ id) (hhigh : id ≤ n) : distance n events id < n := by
  have hmem : id ∈ (List.range' 1 n).rotate (lastServer events) := by
    rw [List.mem_rotate, List.mem_range'_1]
    omega
  calc distance n events id < ((List.range' 1 n).rotate (lastServer events)).length := List.idxOf_lt_length_of_mem hmem
    _ = n := by rw [List.length_rotate, List.length_range']

/-- What the cursor has passed stands behind the rest. -/
theorem rotate_of_stop {up : Nat → Bool} {rest : List Nat} (hlow : 1 ≤ h) (hhigh : h ≤ n)
    (hstop : Rotation.stop up (order n h) = some (id, rest)) : rest = (List.range' 1 n).rotate id := by
  obtain ⟨front, back, horder, hfront, hid, rfl⟩ := Rotation.stop_eq_some hstop
  have hmem : id ∈ order n h := horder ▸ List.mem_append_right _ List.mem_cons_self
  obtain ⟨hlow', hhigh'⟩ := mem_order.mp hmem
  have hlength : front.length < n := by
    rw [← length_order (n := n) (h := h), horder, List.length_append, List.length_cons]
    omega
  rw [← order_advance_eq hlow' hhigh']
  exact (@search_eq (fun i => ⟨i, [], 0, up i⟩) _ _ n 0 _ _ _ hlow hhigh horder hfront hid (by omega) hlength).2.symm

/-- A client that is sent elsewhere brings the cursor closer to a server that is up. -/
theorem Follows.closer {page : Page} {written : Str} (h : Follows content events p) (hlow : 1 ≤ id)
    (hhigh : id ≤ p.lb.numOfServers) (hup : isUp events id = true) (hpage : page = nextPage content events) :
    page.serverId = some id ∨
      distance p.lb.numOfServers (events ++ [.answered page written]) id < distance p.lb.numOfServers events id := by
  have hmem : id ∈ order p.lb.numOfServers p.lb.handlerServerId := mem_order.mpr ⟨hlow, hhigh⟩
  unfold nextPage at hpage
  dsimp only at hpage
  rw [← h.number, ← h.line] at hpage
  cases hstop : Rotation.stop (isUp events) (order p.lb.numOfServers p.lb.handlerServerId) with
  | none =>
      rw [Rotation.stop_eq_none.mp hstop id hmem] at hup
      cases hup
  | some found =>
      obtain ⟨target, rest⟩ := found
      rw [hstop] at hpage
      by_cases heq : id = target
      · subst heq
        exact Or.inl (by rw [hpage]; rfl)
      · right
        have hlast : lastServer (events ++ [.answered page written]) = target := by
          rw [lastServer_snoc, hpage]
          rfl
        unfold distance
        rw [hlast, ← rotate_of_stop h.range.1 h.range.2 hstop, ← h.line]
        exact Rotation.idxOf_stop_lt hmem hup hstop heq

/-- A server that was up, and has not been found down since, is one of those that the next clients are sent to, as many of them as there
are servers. -/
theorem visits_of_runs (hparse : parseAllServers content = .ok (n, servers)) (hfuel : n ≤ fuel)
    (hrun : Runs (Step fuel) (.start n servers) (events ++ stretch) p) (hlow : 1 ≤ id) (hhigh : id ≤ n)
    (hup : isUp events id = true) (hkept : .checked id false ∉ stretch) (hlong : n ≤ answers stretch) : Visits stretch id := by
  obtain ⟨mid, hbefore, hafter⟩ := hrun.exists_mid
  obtain ⟨hfollows, hnumber⟩ := follows_of_runs (listed_of_parse hparse) (Nat.le_trans hlow hhigh) hfuel hbefore
  have hcount : .checked id false ∉ stretch → isUp (events ++ stretch) id = true ∧
      (Visits stretch id ∨ answers stretch + distance n (events ++ stretch) id ≤ distance n events id) := by
    refine (Runs.invariant (P := fun as p => (Follows content (events ++ as) p ∧ p.lb.numOfServers = n) ∧
      (.checked id false ∉ as → isUp (events ++ as) id = true ∧
        (Visits as id ∨ answers as + distance n (events ++ as) id ≤ distance n events id))) ?_ ?_ hafter).2
    · rw [List.append_nil]
      exact ⟨⟨hfollows, hnumber⟩, fun _ => ⟨hup, Or.inr (by rw [answers, Nat.zero_add])⟩⟩
    · rintro as q event q' ⟨⟨hfollows, rfl⟩, hcount⟩ hstep
      rw [← List.append_assoc]
      refine ⟨hfollows.step hfuel hstep, fun hkept => ?_⟩
      obtain ⟨hup, hcount⟩ := hcount fun hmem => hkept (List.mem_append_left _ hmem)
      cases event with
      | checked id' connected =>
          have hlast : distance q.lb.numOfServers (events ++ as ++ [.checked id' connected]) id =
              distance q.lb.numOfServers (events ++ as) id := by
            rw [distance, lastServer_snoc]
            rfl
          refine ⟨?_, hcount.imp (fun hvisits => hvisits.append_left _) fun hle => ?_⟩
          · rw [isUp_snoc, Event.checkOf]
            split
            · next heq =>
                subst heq
                cases connected with
                | true => rfl
                | false => exact absurd (List.mem_append_right _ (List.mem_singleton_self _)) hkept
            · exact hup
          · rw [answers_append, hlast]
            exact hle
      | answered page written =>
          refine ⟨(isUp_snoc _).trans hup, ?_⟩
          rcases hcount with hvisits | hle
          · exact Or.inl (hvisits.append_left _)
          · have hcloser : page.serverId = some id ∨
                distance q.lb.numOfServers (events ++ as ++ [.answered page written]) id <
                  distance q.lb.numOfServers (events ++ as) id :=
              hfollows.closer hlow hhigh hup (hfollows.page_eq hfuel hstep)
            rcases hcloser with hpage | hlt
            · exact Or.inl ⟨page, written, List.mem_append_right _ (List.mem_singleton_self _), hpage⟩
            · right
              rw [answers_append, answers, answers]
              calc answers as + (0 + 1) + distance q.lb.numOfServers (events ++ as ++ [.answered page written]) id
                  ≤ answers as + distance q.lb.numOfServers (events ++ as) id := by omega
                _ ≤ distance q.lb.numOfServers events id := hle
  obtain ⟨_, hvisits | hle⟩ := hcount hkept
  · exact hvisits
  · have hlt := @distance_lt n id events hlow hhigh
    omega

/-- The second of two servers is up, and the first is not. -/
theorem visits_of_runs_two : ∃ events stretch servers p,
    events = [.checked 1 false, .checked 2 true] ∧ answers stretch = 2 ∧
      Runs (Step 2) (.start 2 servers) (events ++ stretch) p ∧ Visits stretch 2 := by
  obtain ⟨servers, hparse⟩ := parse_twoServers
  have hchecks : Runs (Step 2) (.start 2 servers) [.checked 1 false, .checked 2 true]
      (((Process.start 2 servers).check false).check true) := .snoc (.snoc .nil (.checked false)) (.checked true)
  obtain ⟨hfollows, _⟩ := follows_of_runs (listed_of_parse hparse) (by decide) (Nat.le_refl 2) hchecks
  obtain ⟨lb₁, hfirst, hfollows₁⟩ := @Follows.exists_answer _ _ _ 2 _ ⟨∅, ∅⟩ hfollows (Nat.le_refl 2) rfl
  have hnumber : lb₁.numOfServers = 2 := hfollows₁.number
  obtain ⟨lb₂, hsecond, _⟩ := @Follows.exists_answer _ _ _ 2 _ ⟨∅, ∅⟩ hfollows₁ hnumber.le rfl
  have hrun := hchecks.append (.snoc (.snoc .nil hfirst) hsecond)
  exact ⟨_, _, servers, _, rfl, rfl, hrun,
    visits_of_runs hparse (Nat.le_refl 2) hrun (by decide) (by decide) (by decide) (by simp) (Nat.le_refl 2)⟩

end PennCloud.LoadBalancer
